/-!
# Markers

Compilers leave a string behind that names the tool and, as a JSON object, the
way it was run.
-/

namespace Dalvik

/-- A compiler that leaves a marker. -/
inductive MarkerTool where
  | d8
  | r8
  | l8
  deriving DecidableEq, Repr, Inhabited

namespace MarkerTool

/-- All tools. -/
def all : List MarkerTool := [d8, r8, l8]

/-- The name of a tool. -/
def name : MarkerTool → String
  | d8 => "D8"
  | r8 => "R8"
  | l8 => "L8"

/-- What stands in front of the object in the marker of a tool. -/
def opening (tool : MarkerTool) : String :=
  "~~" ++ tool.name

end MarkerTool

/-- The tool and the object that it left, with its braces. -/
structure Marker where
  tool : MarkerTool
  content : String
  deriving DecidableEq, Repr, Inhabited

namespace Marker

/-- The first characters of every marker. -/
def start : String := "~~"

/-- Whether a text begins and ends with the braces of an object. -/
def isObject (content : List Char) : Bool :=
  content.head? == some '\x7b' && content.getLast? == some '\x7d'

/-- The string of a marker. -/
def text (m : Marker) : String :=
  m.tool.opening ++ m.content

/-- The marker of a tool that a string holds. -/
def ofTool? (tool : MarkerTool) (s : List Char) : Option Marker :=
  let opening := tool.opening.toList
  let content := s.drop opening.length
  if opening.isPrefixOf s && isObject content then some ⟨tool, String.ofList content⟩ else none

/-- The marker that a string holds, if it is one. -/
def parse? (s : String) : Option Marker :=
  MarkerTool.all.findSome? (ofTool? · s.toList)

end Marker

end Dalvik
