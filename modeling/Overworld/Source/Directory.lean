import Overworld.FileSystem

/-!
# Source directories

A local copy of the source. Only files below its root can be read.
-/

set_option autoImplicit false

namespace Overworld.Source

def relative (path : Bytes) : Bytes := Path.clean (Bytes.trimLeft Path.slash path)

/-- Whether a path in shortest form leaves the directory it starts in. -/
def leaves (p : Bytes) : Bool :=
  p = Path.dotDot || Bytes.beginsWith p (Path.dotDot ++ [Path.slash])

def fetchFile (fs : FileSystem) (root path : Bytes) : Except Failure Bytes :=
  if leaves (relative path) then fail (.pathEscapes path)
  else inStep ("reading " ++ Utf8.shown path) (fs.readFile (Path.join [root, relative path]))

end Overworld.Source
