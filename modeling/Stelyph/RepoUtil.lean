import Stelyph.Lib.Text

/-!
# Record keys, collections and TIDs

What the record handlers of the servers share, from
`rust-core/src/repo/util.rs`.
-/

namespace Stelyph

/-- The checks on a record key: its length in bytes, the two characters
that are named, and printable ASCII. -/
def validateRkey (rkey : String) : Except String Unit :=
  if rkey.isEmpty || rkey.utf8ByteSize > 512 then .error "rkey must be 1–512 chars"
  else if rkey.toList.contains '/' || rkey.toList.contains '\x00' then
    .error "rkey must not contain '/' or NUL"
  else if !(Text.bytes rkey).all fun b => 0x21 ≤ b && b ≤ 0x7e then
    .error "rkey must contain only printable ASCII characters"
  else .ok ()

def validateSegment (seg : String) : Except String Unit :=
  match seg.toList with
  | [] => .error "collection segment must not be empty"
  | c :: _ =>
      if !c.isAlpha then .error "collection segment must start with a letter"
      else if !seg.toList.all fun c => c.isAlphanum || c == '-' then
        .error "collection segment must contain only alphanumeric chars or hyphens"
      else .ok ()

def validateSegments : List String → Except String Unit
  | [] => .ok ()
  | seg :: segs => do
      validateSegment seg
      validateSegments segs

/-- The checks on a collection: two segments at least, and each of them well formed. -/
def validateCollection (collection : String) : Except String Unit :=
  if collection.isEmpty || collection.toList.contains '\x00' || collection.toList.contains '/' then
    .error "collection must be a valid NSID (e.g. app.bsky.feed.post)"
  else
    let segments := Text.split collection '.'
    if segments.length < 2 then
      .error "collection must have at least two dot-separated segments"
    else validateSegments segments

def tidAlphabet : List Char := "234567abcdefghijklmnopqrstuvwxyz".toList

/-- Thirteen base-32 digits of the timestamp in the upper bits of a `u64`. -/
def tidFromMicros (us : Nat) : String :=
  let n := us * 2 ^ 10 % 2 ^ 64
  String.ofList ((List.range 13).map fun i =>
    tidAlphabet.getD (n / 32 ^ (12 - i) % 32) '2')

/-- TIDs are in the order of their times, as long as those fit. -/
theorem tidFromMicros_lt {a b : Nat} (h : a < b) (hb : b < 2 ^ 53) :
    tidFromMicros a < tidFromMicros b := by
  have hdigit : ∀ a b, a < b → b < 32 → tidAlphabet.getD a '2' < tidAlphabet.getD b '2' := by
    intro a b hab hb
    have hall : ∀ b < 32, ∀ a < b, tidAlphabet.getD a '2' < tidAlphabet.getD b '2' := by decide
    exact hall b hb a hab
  have htid : ∀ us, (tidFromMicros us).toList
      = Text.digits (fun d => tidAlphabet.getD d '2') 32 13 (us * 2 ^ 10 % 2 ^ 64) := by
    intro us
    rw [tidFromMicros, String.toList_ofList, Text.digits_eq_map]
  rw [String.lt_iff, htid, htid]
  refine Text.digits_lt hdigit ?_ ?_
  · omega
  · omega

end Stelyph
