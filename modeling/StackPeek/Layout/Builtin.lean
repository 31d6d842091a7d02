import StackPeek.Layout.Basic

/-!
# The known interpreter builds

Offsets for 64-bit Linux. Strings and byte strings look alike in every build; threads, frames
and code objects do not.
-/

namespace StackPeek.Layout

def objectEntries : List (Field × FieldSpec) :=
  [(.bytesSize, .signedAt 16 8), (.bytesData, .inlineAt 32),
   (.stringLength, .signedAt 16 8), (.stringInterned, .bitsAt 32 0 2),
   (.stringKind, .bitsAt 32 2 3), (.stringCompact, .bitsAt 32 5 1),
   (.stringAscii, .bitsAt 32 6 1), (.stringReady, .bitsAt 32 7 1),
   (.stringWide, .pointerAt 40), (.stringAsciiData, .inlineAt 48),
   (.stringUtf8Length, .signedAt 48 8), (.stringUtf8, .pointerAt 56),
   (.stringWideLength, .signedAt 64 8), (.stringCompactData, .inlineAt 72),
   (.stringData, .pointerAt 72)]

def entries : LayoutId → List (Field × FieldSpec)
  | .v33 =>
    [(.interpreterNext, .pointerAt 0), (.interpreterThreads, .pointerAt 8),
     (.threadNext, .pointerAt 0), (.threadFrame, .pointerAt 16),
     (.threadId, .unsignedAt 144 8), (.frameBack, .pointerAt 24),
     (.frameCode, .pointerAt 32), (.frameLasti, .signedAt 120 4),
     (.codeFilename, .stringAt 96), (.codeName, .stringAt 104),
     (.codeFirstLine, .signedAt 112 4), (.codeLineTable, .pointerAt 120)]
  | .v36 =>
    [(.interpreterNext, .pointerAt 0), (.interpreterThreads, .pointerAt 8),
     (.threadNext, .pointerAt 8), (.threadFrame, .pointerAt 24),
     (.threadId, .unsignedAt 152 8), (.frameBack, .pointerAt 24),
     (.frameCode, .pointerAt 32), (.frameLasti, .signedAt 120 4),
     (.codeFirstLine, .signedAt 36 4), (.codeFilename, .stringAt 96),
     (.codeName, .stringAt 104), (.codeLineTable, .pointerAt 112)]
  | .v39 =>
    [(.interpreterNext, .pointerAt 0), (.interpreterThreads, .pointerAt 8),
     (.threadNext, .pointerAt 8), (.threadFrame, .pointerAt 24),
     (.threadId, .unsignedAt 176 8), (.frameBack, .pointerAt 24),
     (.frameCode, .pointerAt 32), (.frameLasti, .signedAt 104 4),
     (.codeFirstLine, .signedAt 40 4), (.codeFilename, .stringAt 104),
     (.codeName, .stringAt 112), (.codeLineTable, .pointerAt 120)]
  | .v310 =>
    [(.interpreterNext, .pointerAt 0), (.interpreterThreads, .pointerAt 8),
     (.threadNext, .pointerAt 8), (.threadFrame, .pointerAt 24),
     (.threadId, .unsignedAt 176 8), (.frameBack, .pointerAt 24),
     (.frameCode, .pointerAt 32), (.frameLasti, .signedAt 96 4),
     (.codeFirstLine, .signedAt 40 4), (.codeFilename, .stringAt 104),
     (.codeName, .stringAt 112), (.codeLineTable, .pointerAt 120)]
  | .v311 =>
    [(.interpreterNext, .pointerAt 0), (.interpreterThreads, .pointerAt 16),
     (.threadNext, .pointerAt 8), (.threadCFrame, .pointerAt 56),
     (.threadId, .unsignedAt 152 8), (.cframeCurrent, .pointerAt 8),
     (.frameCode, .pointerAt 32), (.frameBack, .pointerAt 48),
     (.framePrevInstr, .pointerAt 56), (.codeFirstLine, .signedAt 72 4),
     (.codeFilename, .stringAt 112), (.codeName, .stringAt 120),
     (.codeLineTable, .pointerAt 136), (.codeBytecode, .inlineAt 184)]

def builtin (id : LayoutId) : Layout where
  id := id
  major := 3
  minor := match id with
    | .v33 => 3
    | .v36 => 6
    | .v39 => 9
    | .v310 => 10
    | .v311 => 11
  lineTable := match id with
    | .v33 => .lnotab
    | .v36 | .v39 => .lnotabSigned
    | .v310 => .linetable310
    | .v311 => .locationTable311
  instruction := match id with
    | .v33 | .v36 | .v39 => .lastiBytes
    | .v310 => .lastiCodeUnits
    | .v311 => .prevInstrPointer
  frameLink := match id with
    | .v311 => .viaCFrame
    | _ => .direct
  spec? field := (entries id ++ objectEntries).lookup field

@[simp] theorem builtin_id (id : LayoutId) : (builtin id).id = id := rfl

end StackPeek.Layout
