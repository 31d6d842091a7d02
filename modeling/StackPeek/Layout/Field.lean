/-!
# Structures of the target and their members

The walker reads eight kinds of structures. `Field` lists every member it may need, in the
order in which a layout is printed; `Field.kind` says which structure holds it.
-/

namespace StackPeek

/-- The structures of the target. A string has a header and, unless it is compact ASCII, the
members that follow the header. -/
inductive StructKind where
  | interpreterState
  | threadState
  | cframe
  | frame
  | code
  | bytes
  | string
  | compactString
  deriving DecidableEq, Inhabited

namespace StructKind

def all : List StructKind :=
  [.interpreterState, .threadState, .cframe, .frame,
   .code, .bytes, .string, .compactString]

def name : StructKind → String
  | .interpreterState => "InterpreterState"
  | .threadState => "ThreadState"
  | .cframe => "CFrame"
  | .frame => "Frame"
  | .code => "Code"
  | .bytes => "Bytes"
  | .string => "String"
  | .compactString => "CompactString"

def nameOfCode (code : Nat) : String := (all[code]?).elim "Unknown" name

theorem mem_all (kind : StructKind) : kind ∈ all := by cases kind <;> decide

end StructKind

inductive Field where
  | interpreterNext
  | interpreterThreads
  | threadNext
  /-- The innermost frame, where the thread state names it directly. -/
  | threadFrame
  /-- The record that names the innermost frame, where there is one. -/
  | threadCFrame
  | threadId
  | cframeCurrent
  | frameBack
  | frameCode
  | frameLasti
  | framePrevInstr
  | codeFirstLine
  | codeFilename
  | codeName
  | codeLineTable
  | codeBytecode
  | bytesSize
  | bytesData
  | stringLength
  | stringInterned
  /-- The number of bytes of a character. -/
  | stringKind
  | stringCompact
  | stringAscii
  | stringReady
  /-- A buffer of four-byte units, for strings that are not ready. -/
  | stringWide
  | stringAsciiData
  | stringUtf8Length
  | stringUtf8
  | stringWideLength
  | stringCompactData
  | stringData
  deriving DecidableEq, Inhabited

namespace Field

/-- Every member, in the order of a printed layout. -/
def all : List Field :=
  [.interpreterNext, .interpreterThreads, .threadNext, .threadFrame,
   .threadCFrame, .threadId, .cframeCurrent, .frameBack,
   .frameCode, .frameLasti, .framePrevInstr, .codeFirstLine,
   .codeFilename, .codeName, .codeLineTable, .codeBytecode,
   .bytesSize, .bytesData, .stringLength, .stringInterned,
   .stringKind, .stringCompact, .stringAscii, .stringReady,
   .stringWide, .stringAsciiData, .stringUtf8Length, .stringUtf8,
   .stringWideLength, .stringCompactData, .stringData]

def kind : Field → StructKind
  | .interpreterNext | .interpreterThreads => .interpreterState
  | .threadNext | .threadFrame | .threadCFrame | .threadId => .threadState
  | .cframeCurrent => .cframe
  | .frameBack | .frameCode | .frameLasti | .framePrevInstr => .frame
  | .codeFirstLine | .codeFilename | .codeName | .codeLineTable | .codeBytecode => .code
  | .bytesSize | .bytesData => .bytes
  | .stringLength | .stringInterned | .stringKind | .stringCompact | .stringAscii
    | .stringReady | .stringWide | .stringAsciiData => .string
  | .stringUtf8Length | .stringUtf8 | .stringWideLength | .stringCompactData
    | .stringData => .compactString

def name : Field → String
  | .interpreterNext => "InterpreterState_next"
  | .interpreterThreads => "InterpreterState_tstate_head"
  | .threadNext => "ThreadState_next"
  | .threadFrame => "ThreadState_frame"
  | .threadCFrame => "ThreadState_cframe"
  | .threadId => "ThreadState_thread_id"
  | .cframeCurrent => "CFrame_current_frame"
  | .frameBack => "Frame_back"
  | .frameCode => "Frame_code"
  | .frameLasti => "Frame_lasti"
  | .framePrevInstr => "Frame_prev_instr"
  | .codeFirstLine => "Code_firstlineno"
  | .codeFilename => "Code_filename"
  | .codeName => "Code_name"
  | .codeLineTable => "Code_linetable"
  | .codeBytecode => "Code_code_adaptive"
  | .bytesSize => "Bytes_size"
  | .bytesData => "Bytes_data"
  | .stringLength => "String_length"
  | .stringInterned => "String_state_interned"
  | .stringKind => "String_state_kind"
  | .stringCompact => "String_state_compact"
  | .stringAscii => "String_state_ascii"
  | .stringReady => "String_state_ready"
  | .stringWide => "String_wstr"
  | .stringAsciiData => "String_ascii_data"
  | .stringUtf8Length => "String_utf8_length"
  | .stringUtf8 => "String_utf8"
  | .stringWideLength => "String_wstr_length"
  | .stringCompactData => "String_compact_data"
  | .stringData => "String_data"

def ofCode? (code : Nat) : Option Field := all[code]?

def ofName? (text : String) : Option Field := all.find? (·.name == text)

theorem mem_all (field : Field) : field ∈ all := by cases field <;> decide

end Field
end StackPeek
