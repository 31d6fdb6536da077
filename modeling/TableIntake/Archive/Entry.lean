import TableIntake.Scratch

namespace TableIntake.Archive

/-! What readers find in archives. -/

inductive Entry where
  /-- A link or a device is a member that is no regular file. -/
  | member (name : String) (regular : Bool) (content : Content)
  /-- A directory, or something that only describes the archive. -/
  | skipped
  | sealed (reason : String)
  deriving DecidableEq, Repr

/-- What makes the rest of an archive unreadable. -/
inductive Fault where
  | isDirectory
  | unfinishedBlock
  | endInEntry
  | headerChecksum
  | badNumber
  | repeatedDescription
  | missingMember
  | badSparseMap
  | noEndRecord
  | badEndRecord
  | manyDisks
  | badDirectory
  | badExtraField
  | badLocalHeader
  deriving DecidableEq, Repr

def Fault.message : Fault → String
  | .isDirectory => "Is a directory (os error 21)"
  | .unfinishedBlock => "failed to read entire block"
  | .endInEntry => "unexpected EOF during skip"
  | .headerChecksum => "archive header checksum mismatch"
  | .badNumber => "numeric field was not a number"
  | .repeatedDescription => "two entries describing the same member"
  | .missingMember =>
      "members found describing a future member but no future member found"
  | .badSparseMap => "mismatch in sparse file chunks and size in header"
  | .noEndRecord => "Could not find central directory end"
  | .badEndRecord => "Invalid central directory size or offset"
  | .manyDisks => "Support for multi-disk files is not implemented"
  | .badDirectory => "Invalid Central Directory header"
  | .badExtraField => "Invalid extra data field"
  | .badLocalHeader => "Invalid local file header"

/-- The entries up to the end of the archive, or up to a fault. -/
structure Contents where
  entries : List Entry
  fault : Option Fault := none
  deriving DecidableEq, Repr

def Contents.cons (entry : Entry) (contents : Contents) : Contents :=
  { contents with entries := entry :: contents.entries }

end TableIntake.Archive
