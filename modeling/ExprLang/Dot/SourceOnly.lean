import ExprLang.Dot.Source
import ExprLang.Files.Disk
import ExprLang.Text.LowerCase

/-! The renderer of a machine that has no program for drawing.

    The format is checked before anything is written. Then the source of the graph is written, from
    which the program would make the drawing, and stays when it turns out that there is none. -/

namespace ExprLang.Dot

/-- The formats that a graph can be drawn in. -/
def formats : List String :=
  ["bmp", "canon", "cgimage", "cmap", "cmapx", "cmapx_np", "dot", "dot_json", "eps", "exr", "fig",
   "gd", "gd2", "gif", "gtk", "gv", "ico", "imap", "imap_np", "ismap", "jp2", "jpe", "jpeg", "jpg",
   "json", "json0", "pct", "pdf", "pic", "pict", "plain", "plain-ext", "png", "pov", "ps", "ps2",
   "psd", "sgi", "svg", "svg_inline", "svgz", "tga", "tif", "tiff", "tk", "vml", "vmlz", "vrml",
   "wbmp", "webp", "x11", "xdot", "xdot1.2", "xdot1.4", "xdot_json", "xlib"]

/-- Refuses a format in which no graph can be drawn, and the lack of one. -/
def checkFormat : Option String → Except Failure Unit
  | none => .error .noFormat
  | some name =>
    let name := Text.lowerCase name
    if formats.contains name then .ok () else .error (.unknownFormat name formats)

/-- What is reported when the program is missing. -/
def missingProgram : String :=
  "failed to execute PosixPath('dot'), make sure the Graphviz executables are on your systems' PATH"

end ExprLang.Dot

namespace ExprLang.Renderer

/-- Writes the source of a graph and misses the program that draws it. -/
def sourceOnly {m : Type → Type} [Monad m] (disk : Files.Disk m) : Renderer m where
  draw statements path format := do
    match Dot.checkFormat format with
    | .error f => pure (.error f)
    | .ok _ =>
      match ← disk.ensureParent path with
      | .error fault => pure (.error (.file fault))
      | .ok _ =>
        match ← disk.writeFile path (Dot.source statements) with
        | .error fault => pure (.error (.file fault))
        | .ok _ => pure (.error (.file (.noProgram Dot.missingProgram)))

end ExprLang.Renderer
