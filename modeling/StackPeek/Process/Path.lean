/-!
# Paths in the process file system

The path of a file of a process is put together from a root, the process number and the name
of the file, and then brought to normal form by names alone: repeated separators and `.`
disappear, and `..` takes away the name before it. A path that ends in a separator, or in
something that disappeared, keeps one separator at its end, except behind `..`. Only a path
that was given as nothing but separators keeps all of them as its root.
-/

namespace StackPeek

/-- A path: the separators it starts with, and what stands between the others. An empty last
part stands for a separator at the end. -/
structure Path where
  root : String
  parts : List String
  deriving DecidableEq, Inhabited

namespace Path

def ofString (text : String) : Path :=
  if text.all (· == '/') then ⟨text, []⟩
  else
    let pieces := text.splitOn "/"
    ⟨if text.startsWith "/" then "/" else "",
      pieces.dropLast.filter (!·.isEmpty) ++ pieces.getLast?.toList⟩

def names (p : Path) : List String :=
  if p.parts.getLast? = some "" then p.parts.dropLast else p.parts

/-- A path inside another one; a path with a root of its own stands for itself. -/
def join (p q : Path) : Path :=
  if q.root ≠ "" then q
  else if q.parts.isEmpty && p.parts.isEmpty then p
  else ⟨p.root, p.names ++ if q.parts.isEmpty then [""] else q.parts⟩

/-- The directory a path has led to: the names of its levels, and whether a separator stands
behind the last one. -/
structure Place where
  names : List String
  trailing : Bool

def Place.up (rooted : Bool) (p : Place) : Place :=
  match p.names.getLast? with
  | none => if rooted then p else ⟨[".."], false⟩
  | some ".." => ⟨p.names ++ [".."], false⟩
  | some _ => ⟨p.names.dropLast, true⟩

def Place.step (rooted : Bool) (p : Place) (part : String) : Place :=
  if part = "" ∨ part = "." then ⟨p.names, true⟩
  else if part = ".." then p.up rooted
  else ⟨p.names ++ [part], false⟩

def normalize (p : Path) : String :=
  let place := p.parts.foldl (Place.step (p.root ≠ "")) ⟨[], false⟩
  let separator := place.trailing && !place.names.isEmpty && place.names.getLast? != some ".."
  let text := p.root ++ "/".intercalate place.names ++ if separator then "/" else ""
  if text.isEmpty then "." else text

/-- The path of a file of a process; without a root, the system's own file system is meant. -/
def ofProcess (root : String) (pid : Int) (file : String) : String :=
  let procfs := if root.isEmpty then ofString "/proc" else (ofString root).join (ofString "proc")
  ((procfs.join (ofString (toString pid))).join (ofString file)).normalize

end Path
end StackPeek
