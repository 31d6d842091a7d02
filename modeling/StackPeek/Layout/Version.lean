import StackPeek.Layout.Builtin
import StackPeek.Probe

/-!
# Choosing a layout by version

A version is given as a cache tag, `cpython-` and digits of which the first is the major
version, or as any text with two numbers around a dot. A cache tag is a full match of the pattern
`cpython-(\d)(\d+)`, from the first character of the text to the last. The other form is a partial
match of `(\d+)\.(\d+)`: the leftmost place where it matches counts, and each number takes all the
digits it can. A number above `Version.limit` spoils the whole reading.
-/

namespace StackPeek

namespace Version

def limit : Nat := 2147483647

def value (digits : List Char) : Nat :=
  digits.foldl (fun n c => 10 * n + (c.toNat - '0'.toNat)) 0

/-- Two version numbers, unless one is too large. -/
def numbers? (major minor : List Char) : Option (Nat × Nat) :=
  if value major ≤ limit ∧ value minor ≤ limit then some (value major, value minor) else none

def afterTag? (text : List Char) : Option (List Char) :=
  let tag := "cpython-".toList
  if tag.isPrefixOf text then some (text.drop tag.length) else none

def ofCacheTag? (text : List Char) : Option (Nat × Nat) :=
  match afterTag? text with
  | some (major :: minor) =>
    if major.isDigit && !minor.isEmpty && minor.all Char.isDigit then numbers? [major] minor
    else none
  | _ => none

/-- The leftmost pair of digit rows around a dot. -/
def dotted? : List Char → Option (List Char × List Char)
  | [] => none
  | c :: rest =>
    let major := (c :: rest).takeWhile Char.isDigit
    match (c :: rest).dropWhile Char.isDigit with
    | '.' :: tail =>
      let minor := tail.takeWhile Char.isDigit
      if !major.isEmpty && !minor.isEmpty then some (major, minor) else dotted? rest
    | _ => dotted? rest

def parse? (text : String) : Option (Nat × Nat) :=
  match ofCacheTag? text.toList with
  | some v => some v
  | none => (dotted? text.toList).bind fun (major, minor) => numbers? major minor

end Version

namespace Layout

def ofVersion? (major minor : Nat) : Option Layout :=
  (LayoutId.all.map builtin).find? fun l => l.major == major && l.minor == minor

def select (version : String) : Probe Layout :=
  match Version.parse? version with
  | none => .fault (.unreadableVersion version)
  | some (major, minor) =>
    match ofVersion? major minor with
    | some l => do
      Probe.report .info s!"Using layout {l.id.name} for '{version}'"
      return l
    | none => do
      Probe.report .warn s!"No layout for Python {major}.{minor} ('{version}')"
      .fault (.unsupportedVersion major minor)

def ofCode (code : Nat) : Except Fault Layout :=
  match LayoutId.all[code]? with
  | some id => .ok (builtin id)
  | none => .error (.unknownLayout code)

end Layout
end StackPeek
