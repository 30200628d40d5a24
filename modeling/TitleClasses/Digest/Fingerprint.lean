import TitleClasses.Digest.Sha256
import TitleClasses.Text.Utf8

/-!
# Fingerprints

The hash of bytes as hexadecimal text, and the fingerprint of a document under a vocabulary, which
changes with either: the hash of the document's hash and the vocabulary's digest on two lines.
-/

namespace TitleClasses

open Utf8 (Bytes)

/-- The hash of bytes as 64 hexadecimal digits. -/
def hashText (bytes : Bytes) : Text :=
  (Sha256.digest bytes).words.flatMap fun w => Text.padded 16 8 w.toNat

/-- What is hashed for the fingerprint of a document. -/
def fingerprintSource (document : Bytes) (digest : Text) : Bytes :=
  (Text.concat [hashText document, "\n", digest]).flatMap Utf8.encodeOne

/-- The fingerprint of a document under a vocabulary with the given digest. -/
def fingerprint (document : Bytes) (digest : Text) : Text :=
  hashText (fingerprintSource document digest)

end TitleClasses
