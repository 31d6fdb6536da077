import TableIntake.Archive.Tar
import TableIntake.Archive.Zip

namespace TableIntake.Archive

/-! Archives of either kind. -/

inductive Container where
  | tar
  | zip
  deriving DecidableEq, Repr

namespace Container

/-- Zip archives begin with a local header, or with the end record if they are empty. -/
def detect (octets : Octets) : Container :=
  if Zip.localSignature.isPrefixOf octets || Zip.endSignature.isPrefixOf octets then zip
  else tar

def read : Container → Octets → Contents
  | tar, octets => Tar.read octets
  | zip, octets => Zip.read octets

end Container

def read (octets : Octets) : Contents :=
  (Container.detect octets).read octets

end TableIntake.Archive
