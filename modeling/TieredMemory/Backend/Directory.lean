import Std.Data.TreeMap
import TieredMemory.Backend.PageFile

namespace TieredMemory

structure Directory where
  path : List String
  files : Std.TreeMap String SparseBytes := ∅

namespace Directory

def nameLimit : Nat := 255

def pathLimit : Nat := 4095

def isAncestor (d : Directory) (names : List String) : Bool := names.isPrefixOf d.path

def descend (d : Directory) : (here names : List String) → Except Obstacle (List String)
  | here, [] => .ok here
  | here, name :: names =>
    if name = "." then d.descend here names
    else if name = ".." then d.descend here.dropLast names
    else if nameLimit < name.utf8ByteSize then .error .nameTooLong
    else if d.isAncestor (here ++ [name]) then d.descend (here ++ [name]) names
    else if here = d.path ∧ name ∈ d.files then .error .notDirectory
    else .error .missing

def resolve (d : Directory) (path : String) : Except Obstacle (Option String) :=
  if pathLimit < path.utf8ByteSize then .error .nameTooLong
  else if path = "" then .error .missing
  else
    let names := (path.splitOn "/").filter (· ≠ "")
    match names.getLast? with
    | none => .error .isDirectory
    | some name => do
      let here ← d.descend (if path.startsWith "/" then [] else d.path) names.dropLast
      if path.endsWith "/" ∨ name = "." ∨ name = ".." then .error .isDirectory
      else if nameLimit < name.utf8ByteSize then .error .nameTooLong
      else if d.isAncestor (here ++ [name]) then .error .isDirectory
      else return if here = d.path then some name else none

def find (d : Directory) (path : String) : Location :=
  match d.resolve path with
  | .error why => .unreachable why
  | .ok none => .vacant
  | .ok (some name) =>
    match d.files[name]? with
    | some bytes => .file bytes
    | none => .vacant

def put (d : Directory) (path : String) (place : Location) : Directory :=
  match d.resolve path, place with
  | .ok (some name), .file bytes => { d with files := d.files.insert name bytes }
  | _, _ => d

end Directory

end TieredMemory
