namespace TieredMemory.Json

inductive Document where
  | number (literal : String)
  | flag (b : Bool)
  | text (s : String)
  | record (fields : List (String × Document))

namespace Document

def nat (n : Nat) : Document := .number (toString n)

def lowHex (n : Nat) : List Char := [Nat.digitChar (n / 16), Nat.digitChar (n % 16)]

def escape (c : Char) : List Char :=
  if c = '"' then ['\\', '"']
  else if c = '\\' then ['\\', '\\']
  else if c = '\x08' then ['\\', 'b']
  else if c = '\x0c' then ['\\', 'f']
  else if c = '\n' then ['\\', 'n']
  else if c = '\r' then ['\\', 'r']
  else if c = '\t' then ['\\', 't']
  else if c.toNat < 0x20 then ['\\', 'u', '0', '0'] ++ lowHex c.toNat
  else [c]

def quoted (s : String) : String := "\"" ++ String.ofList (s.toList.flatMap escape) ++ "\""

mutual

def compact : Document → String
  | .number literal => literal
  | .flag b => if b then "true" else "false"
  | .text s => quoted s
  | .record fields => "\x7b" ++ String.intercalate "," (compactFields fields) ++ "\x7d"

def compactFields : List (String × Document) → List String
  | [] => []
  | (name, d) :: rest => (quoted name ++ ":" ++ compact d) :: compactFields rest

end

def joinBlocks : List (List String) → List String
  | [] => []
  | [block] => block
  | block :: blocks =>
    (match block.getLast? with
      | some line => block.dropLast ++ [line ++ ","]
      | none => []) ++ joinBlocks blocks

mutual

def lines : Document → List String
  | .number literal => [literal]
  | .flag b => [if b then "true" else "false"]
  | .text s => [quoted s]
  | .record [] => ["\x7b\x7d"]
  | .record (field :: fields) =>
    ["\x7b"] ++ (joinBlocks (fieldLines (field :: fields))).map ("  " ++ ·) ++ ["\x7d"]

def fieldLines : List (String × Document) → List (List String)
  | [] => []
  | (name, d) :: rest =>
    (match lines d with
      | first :: more => (quoted name ++ ": " ++ first) :: more
      | [] => []) :: fieldLines rest

end

end Document

end TieredMemory.Json
