import CspLinksim.Lib.TextScan
import CspLinksim.Sha256Standard

/-!
# The integrity command `verify` (`csp_monitor_apm.c`)

`verify -c MANIFEST FILE` and `verify -e SHA256 FILE` hash a file and compare. The manifest is
read with `fgets` into 512 bytes; a C string has no NUL in it.
-/

namespace CspLinksim.Verify

open TextScan Sha256

/-- A string of the command line. -/
abbrev CString := { s : List UInt8 // 0 ∉ s }

/-- `"0123456789abcdef"[n]`. -/
def hx (n : UInt8) : UInt8 := if n < 10 then 0x30 + n else 0x57 + n

def hexText (digest : List UInt8) : List UInt8 :=
  digest.flatMap fun (b : UInt8) => [hx (b >>> 4), hx (b &&& 0x0F)]

/-- `ci_sha256_file`: `reads` is what `fread` returns each time, `none` if the file cannot be
read. -/
def ciSha256File (reads : Option (List (List UInt8))) : Option (List UInt8 × UInt64) :=
  reads.map fun reads =>
    let c := reads.foldl ciSha256Update ciSha256Init
    let total := reads.foldl (fun n buf => n + UInt64.ofNat buf.length) 0
    (hexText (ciSha256Final c), total)

/-- The lines `fgets` returns, `room` bytes being left in the buffer for the one at hand. -/
def fgets : ℕ → List UInt8 → List (List UInt8)
  | _, [] => []
  | room, c :: s =>
    if c = 0x0A ∨ room ≤ 1 then [c] :: fgets 511 s
    else
      match fgets (room - 1) s with
      | [] => [[c]]
      | l :: ls => (c :: l) :: ls

/-- What string functions see of a line. -/
def cstr (line : List UInt8) : List UInt8 := line.takeWhile (· ≠ 0)

/-- `"sha256:"`. -/
def marker : List UInt8 := [0x73, 0x68, 0x61, 0x32, 0x35, 0x36, 0x3A]

def isBlank (c : UInt8) : Bool := c = 0x20 ∨ c = 0x09

def isHex (c : UInt8) : Bool :=
  (0x30 ≤ c ∧ c ≤ 0x39) ∨ (0x61 ≤ c ∧ c ≤ 0x66) ∨ (0x41 ≤ c ∧ c ≤ 0x46)

/-- `verify_read_manifest_sha` of a file that opens; `none` is the return value -1. -/
def verifyReadManifestSha (text : List UInt8) : Option (List UInt8) :=
  match (fgets 511 text).findSome? (fun line => strstr marker (cstr line)) with
  | none => none
  | some s =>
    let want := (field isBlank isHex (s.drop 7)).take 64
    if want.length = 64 then some want else none

/-- `tolower` of a byte. -/
def tolower (c : UInt8) : UInt8 := if 0x41 ≤ c ∧ c ≤ 0x5A then c + 0x20 else c

def strcasecmpEq (s t : List UInt8) : Bool := s.map tolower = t.map tolower

/-- A line printed. -/
inductive Line where
  | missingFile
  | noSha256
  | needReference
  | cannotRead
  | ok
  | sha256 (got : List UInt8)
  | bytes (nbytes : UInt64)
  | failedReported (reported : CString)
  | failedMismatch
  | expected (want : List UInt8)
  | received (got : List UInt8)
  | expectedShort (head tail : List UInt8)
  | receivedShort (head tail : List UInt8)
  deriving DecidableEq

inductive Slash where
  | success
  | einval
  | eio
  deriving DecidableEq

/-- The options and whether FILE is given. The text of a manifest is `none` if it cannot be
opened. -/
structure Args where
  parses : Bool
  hasFile : Bool
  manifest : Option (Option (List UInt8))
  expected : Option CString
  reported : Option CString
  verbose : Bool

/-- What the digest is compared with, or the line printed instead. -/
def reference (a : Args) : Except Line (List UInt8) :=
  match a.expected, a.manifest with
  | some e, _ => .ok (e.1.take 64)
  | none, some text =>
    match text.bind verifyReadManifestSha with
    | some want => .ok want
    | none => .error .noSha256
  | none, none => .error .needReference

def verdictLines (a : Args) (want got : List UInt8) (nbytes : UInt64) : List Line :=
  if strcasecmpEq got want then
    .ok :: if a.verbose then [.sha256 got, .bytes nbytes] else []
  else
    (match a.reported with
      | some r => .failedReported r
      | none => .failedMismatch) ::
    if a.verbose then [.expected want, .received got]
    else [.expectedShort (want.take 8) (want.drop 58), .receivedShort (got.take 8) (got.drop 58)]

/-- `verify_cmd`: the lines it prints and its return value. -/
def verifyCmd (a : Args) (reads : Option (List (List UInt8))) : List Line × Slash :=
  if ¬ a.parses then ([], .einval)
  else if ¬ a.hasFile then ([.missingFile], .einval)
  else
    match reference a with
    | .error line => ([line], .einval)
    | .ok want =>
      match ciSha256File reads with
      | none => ([.cannotRead], .eio)
      | some (got, nbytes) => (verdictLines a want got nbytes, .success)

end CspLinksim.Verify
