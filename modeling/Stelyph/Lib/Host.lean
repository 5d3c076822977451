import Stelyph.Lib.WebUrl

/-!
# Addresses and hosts

The two kinds of address, the kinds of address that lead nowhere outside,
and the texts of both: an address is read as the standard library reads
one (`parseIpAddr`), and the host of a URL is written as the URL Standard
writes one (`Host.text`). The two agree on an IPv4 address
(`parseIpAddr_text`) and on nothing else: an IPv6 address stands in
brackets in a URL (`parseIpAddr_bracket`), and the name of a host is no
address (`parseIpAddr_name`).
-/

namespace Stelyph

/-- Four octets, the most significant one first. -/
structure Ipv4Addr where
  a : UInt8
  b : UInt8
  c : UInt8
  d : UInt8
deriving DecidableEq, Repr

namespace Ipv4Addr

def isLoopback (ip : Ipv4Addr) : Bool := ip.a == 127

/-- The three blocks that are not routed. -/
def isPrivate (ip : Ipv4Addr) : Bool :=
  ip.a == 10 || (ip.a == 172 && decide (16 ≤ ip.b) && decide (ip.b ≤ 31))
    || (ip.a == 192 && ip.b == 168)

def isLinkLocal (ip : Ipv4Addr) : Bool := ip.a == 169 && ip.b == 254

def unspecified : Ipv4Addr := ⟨0, 0, 0, 0⟩

def isUnspecified (ip : Ipv4Addr) : Bool := ip == unspecified

/-- The four octets in decimal, with dots between them. -/
def text (ip : Ipv4Addr) : String :=
  s!"{ip.a.toNat}.{ip.b.toNat}.{ip.c.toNat}.{ip.d.toNat}"

/-- The two groups that stand for the address in an IPv6 address. -/
def groups (ip : Ipv4Addr) : List UInt16 :=
  [UInt16.ofNat (256 * ip.a.toNat + ip.b.toNat), UInt16.ofNat (256 * ip.c.toNat + ip.d.toNat)]

end Ipv4Addr

/-- Eight segments of two octets. -/
structure Ipv6Addr where
  segments : List UInt16
  length_eq : segments.length = 8
deriving DecidableEq

namespace Ipv6Addr

def isLoopback (ip : Ipv6Addr) : Bool := ip.segments == [0, 0, 0, 0, 0, 0, 0, 1]

def isUnspecified (ip : Ipv6Addr) : Bool := ip.segments == [0, 0, 0, 0, 0, 0, 0, 0]

/-- `fc00::/7` -/
def isUniqueLocal (ip : Ipv6Addr) : Bool :=
  ip.segments.head?.any fun s => s &&& 0xfe00 == 0xfc00

/-- `fe80::/10` -/
def isUnicastLinkLocal (ip : Ipv6Addr) : Bool :=
  ip.segments.head?.any fun s => s &&& 0xffc0 == 0xfe80

/-- The IPv4 address in an IPv4-mapped one. -/
def toIpv4Mapped (ip : Ipv6Addr) : Option Ipv4Addr :=
  match ip.segments with
  | [0, 0, 0, 0, 0, 0xffff, ab, cd] =>
      some ⟨UInt8.ofNat (ab.toNat / 256), UInt8.ofNat ab.toNat, UInt8.ofNat (cd.toNat / 256),
        UInt8.ofNat cd.toNat⟩
  | _ => none

/-- The groups before and after the zeros that are left out. -/
def ofGroups (front back : List UInt16) : Option Ipv6Addr :=
  if h : (front ++ List.replicate (8 - front.length - back.length) 0 ++ back).length = 8 then
    some ⟨_, h⟩
  else none

/-- The start and the length of the first longest run of two zeros or
more. -/
def longestZeros (segments : List UInt16) : Option (Nat × Nat) :=
  (List.range segments.length).foldl (fun best i =>
    let n := ((segments.drop i).takeWhile (· == 0)).length
    if ((best.map Prod.snd).getD 1) < n then some (i, n) else best) none

/-- The text of the address without its brackets: hexadecimal groups, and
the first longest run of zeros left out. -/
def text (ip : Ipv6Addr) : String :=
  let hex := fun segments : List UInt16 =>
    ":".intercalate (segments.map fun s => String.ofList (Nat.toDigits 16 s.toNat))
  match longestZeros ip.segments with
  | none => hex ip.segments
  | some (i, n) => hex (ip.segments.take i) ++ "::" ++ hex (ip.segments.drop (i + n))

end Ipv6Addr

inductive IpAddr where
  | v4 (ip : Ipv4Addr)
  | v6 (ip : Ipv6Addr)
deriving DecidableEq

/-! ## The text of an address, read

Every reader takes what it reads off the front, and takes nothing where
it fails. -/

/-- The value of a digit, if it is one in that radix. Letters count from ten. -/
def toDigit (radix : Nat) (c : Char) : Option Nat :=
  (if c.isDigit then some (c.toNat - 48) else if c.isLower then some (c.toNat - 87)
    else if c.isUpper then some (c.toNat - 55) else none).filter (decide <| · < radix)

/-- A number of at most `maxDigits` digits below `limit`, and what follows
it. It takes all the digits there are. -/
def readNumber (radix maxDigits limit : Nat) (allowZeroPrefix : Bool) (cs : List Char) :
    Option (Nat × List Char) :=
  let ds := cs.takeWhile fun c => (toDigit radix c).isSome
  let n := ds.foldl (fun n c => radix * n + (toDigit radix c).getD 0) 0
  if ds.isEmpty || decide (maxDigits < ds.length)
    || (!allowZeroPrefix && ds.head? == some '0' && decide (1 < ds.length))
    || decide (limit ≤ n) then none
  else some (n, cs.dropWhile fun c => (toDigit radix c).isSome)

/-- Behind a separator, except at the first index. -/
def readSeparator {α : Type} (sep : Char) (index : Nat)
    (inner : List Char → Option (α × List Char)) (cs : List Char) : Option (α × List Char) :=
  if index = 0 then inner cs
  else match cs with
    | c :: cs => if c = sep then inner cs else none
    | [] => none

/-- Four numbers below 256 with dots between them and no leading zeros. -/
def readIpv4 (cs : List Char) : Option (Ipv4Addr × List Char) := do
  let (a, cs) ← readSeparator '.' 0 (readNumber 10 3 256 false) cs
  let (b, cs) ← readSeparator '.' 1 (readNumber 10 3 256 false) cs
  let (c, cs) ← readSeparator '.' 2 (readNumber 10 3 256 false) cs
  let (d, cs) ← readSeparator '.' 3 (readNumber 10 3 256 false) cs
  some (⟨UInt8.ofNat a, UInt8.ofNat b, UInt8.ofNat c, UInt8.ofNat d⟩, cs)

/-- The groups from an index on, whether an IPv4 address is the last two
of them, and the rest. -/
def readGroups : Nat → Nat → List Char → List UInt16 × Bool × List Char
  | _, 0, cs => ([], false, cs)
  | i, n + 1, cs =>
    match if 0 < n then readSeparator ':' i readIpv4 cs else none with
    | some (ip, rest) => (ip.groups, true, rest)
    | none =>
      match readSeparator ':' i (readNumber 16 4 65536 true) cs with
      | some (group, rest) =>
        let (groups, v4, rest) := readGroups (i + 1) n rest
        (UInt16.ofNat group :: groups, v4, rest)
      | none => ([], false, cs)

/-- Groups up to a double colon, which stands for as many zeros as are
missing, and the groups after it. -/
def readIpv6 (cs : List Char) : Option (Ipv6Addr × List Char) :=
  let (front, v4, rest) := readGroups 0 8 cs
  if front.length = 8 then (Ipv6Addr.ofGroups front []).map (·, rest)
  else if v4 then none
  else match rest with
    | ':' :: ':' :: rest =>
      let (back, _, rest) := readGroups 0 (8 - (front.length + 1)) rest
      (Ipv6Addr.ofGroups front back).map (·, rest)
    | _ => none

/-- An address of either family, the shorter form tried first. -/
def readIpAddr (cs : List Char) : Option (IpAddr × List Char) :=
  match readIpv4 cs with
  | some (ip, rest) => some (.v4 ip, rest)
  | none => (readIpv6 cs).map fun (ip, rest) => (.v6 ip, rest)

/-- `str::parse::<IpAddr>`, the whole text. -/
def parseIpAddr (s : String) : Option IpAddr :=
  match readIpAddr s.toList with
  | some (ip, []) => some ip
  | _ => none

theorem isDigit_of_toDigit {c : Char} (h : (toDigit 10 c).isSome) : c.isDigit = true := by
  rw [toDigit] at h
  split_ifs at h with hdigit hlower hupper
  · exact hdigit
  · have := Text.isLower_iff.mp hlower
    simp only [Option.isSome_filter, Option.any_some, decide_eq_true_eq] at h
    omega
  · have := Text.isUpper_iff.mp hupper
    simp only [Option.isSome_filter, Option.any_some, decide_eq_true_eq] at h
    omega
  · cases h

theorem readNumber_eq_some {radix maxDigits limit n : Nat} {zero : Bool} {cs rest : List Char}
    (h : readNumber radix maxDigits limit zero cs = some (n, rest)) :
    ∃ ds, ds ≠ [] ∧ cs = ds ++ rest ∧ ∀ c ∈ ds, (toDigit radix c).isSome := by
  rw [readNumber] at h
  split_ifs at h with hcond
  obtain ⟨-, rfl⟩ := Prod.mk.injEq .. |>.mp (Option.some.inj h)
  simp only [Bool.or_eq_true, not_or] at hcond
  refine ⟨cs.takeWhile fun c => (toDigit radix c).isSome, fun hnil => ?_,
    List.takeWhile_append_dropWhile.symm, fun c hc => ?_⟩
  · exact hcond.1.1.1 (List.isEmpty_iff.mpr hnil)
  · exact List.all_eq_true.mp List.all_takeWhile c hc

theorem readNumber_of_none {radix : Nat} {c : Char} (hc : toDigit radix c = none)
    (maxDigits limit : Nat) (zero : Bool) (cs : List Char) :
    readNumber radix maxDigits limit zero (c :: cs) = none := by
  have htake : (c :: cs).takeWhile (fun c => (toDigit radix c).isSome) = [] :=
    List.takeWhile_cons_of_neg (by rw [hc]; decide)
  rw [readNumber, htake]
  rfl

theorem readSeparator_zero {α : Type} (sep : Char) (inner : List Char → Option (α × List Char))
    (cs : List Char) : readSeparator sep 0 inner cs = inner cs := if_pos rfl

theorem readSeparator_cons {α : Type} {sep : Char} {index : Nat} (hindex : index ≠ 0)
    (inner : List Char → Option (α × List Char)) (cs : List Char) :
    readSeparator sep index inner (sep :: cs) = inner cs := by
  simp [readSeparator, hindex]

theorem readSeparator_eq_some {α : Type} {sep : Char} {index : Nat} (hindex : index ≠ 0)
    {inner : List Char → Option (α × List Char)} {cs : List Char} {r : α × List Char}
    (h : readSeparator sep index inner cs = some r) : ∃ cs', cs = sep :: cs' ∧ inner cs' = some r := by
  cases cs with
  | nil => simp [readSeparator, hindex] at h
  | cons c cs =>
      by_cases hc : c = sep
      · subst hc
        exact ⟨cs, rfl, by rwa [readSeparator_cons hindex] at h⟩
      · simp [readSeparator, hindex, hc] at h

/-- An address ends in a dot and digits. -/
theorem readIpv4_eq_some {cs rest : List Char} {ip : Ipv4Addr} (h : readIpv4 cs = some (ip, rest)) :
    ∃ pre ds, cs = pre ++ '.' :: (ds ++ rest) ∧ ds ≠ [] ∧ ∀ c ∈ ds, (toDigit 10 c).isSome := by
  rw [readIpv4] at h
  obtain ⟨⟨a, cs₁⟩, ha, h⟩ := Option.bind_eq_some_iff.mp h
  obtain ⟨⟨b, cs₂⟩, hb, h⟩ := Option.bind_eq_some_iff.mp h
  obtain ⟨⟨c, cs₃⟩, hc, h⟩ := Option.bind_eq_some_iff.mp h
  obtain ⟨⟨d, cs₄⟩, hd, h⟩ := Option.bind_eq_some_iff.mp h
  obtain ⟨-, rfl⟩ := Prod.mk.injEq .. |>.mp (Option.some.inj h)
  obtain ⟨as, -, rfl, -⟩ := readNumber_eq_some ha
  obtain ⟨cs₁, rfl, hb⟩ := readSeparator_eq_some (by decide) hb
  obtain ⟨bs, -, rfl, -⟩ := readNumber_eq_some hb
  obtain ⟨cs₂, rfl, hc⟩ := readSeparator_eq_some (by decide) hc
  obtain ⟨cs, -, rfl, -⟩ := readNumber_eq_some hc
  obtain ⟨cs₃, rfl, hd⟩ := readSeparator_eq_some (by decide) hd
  obtain ⟨ds, hne, rfl, hds⟩ := readNumber_eq_some hd
  exact ⟨as ++ '.' :: (bs ++ '.' :: cs), ds, by simp, hne, hds⟩

/-! ## Addresses as they are written -/

theorem readNumber_text (n : UInt8) {rest : List Char}
    (hrest : ∀ c, rest.head? = some c → toDigit 10 c = none) :
    readNumber 10 3 256 false ((toString n.toNat).toList ++ rest) = some (n.toNat, rest) := by
  have hdigits : ∀ n : Fin 256,
      let ds := (toString n.val).toList
      (ds.isEmpty || decide (3 < ds.length)
        || (!false && ds.head? == some '0' && decide (1 < ds.length))) = false
      ∧ (ds.all fun c => (toDigit 10 c).isSome) = true
      ∧ ds.foldl (fun n c => 10 * n + (toDigit 10 c).getD 0) 0 = n.val := by
    decide +kernel
  obtain ⟨hshape, hall, hvalue⟩ := hdigits ⟨n.toNat, n.toNat_lt⟩
  dsimp only at hshape hall hvalue
  rw [List.all_eq_true] at hall
  have htake : ((toString n.toNat).toList ++ rest).takeWhile (fun c => (toDigit 10 c).isSome)
      = (toString n.toNat).toList := by
    rw [List.takeWhile_append_of_pos hall]
    cases rest with
    | nil => exact List.append_nil _
    | cons c rest =>
        rw [List.takeWhile_cons_of_neg (by rw [hrest c rfl]; decide), List.append_nil]
  have hdrop : ((toString n.toNat).toList ++ rest).dropWhile (fun c => (toDigit 10 c).isSome)
      = rest := by
    rw [List.dropWhile_append_of_pos hall]
    cases rest with
    | nil => rfl
    | cons c rest => rw [List.dropWhile_cons_of_neg (by rw [hrest c rfl]; decide)]
  have hlimit : decide (256 ≤ n.toNat) = false := decide_eq_false (Nat.not_le.mpr n.toNat_lt)
  rw [readNumber, htake, hdrop, hvalue, hshape, hlimit]
  rfl

theorem readIpv4_text (ip : Ipv4Addr) : readIpv4 ip.text.toList = some (ip, []) := by
  have hdot : ".".toList = ['.'] := by decide
  have htext : ip.text.toList = (toString ip.a.toNat).toList ++ '.' ::
      ((toString ip.b.toNat).toList ++ '.' :: ((toString ip.c.toNat).toList ++ '.' ::
        ((toString ip.d.toNat).toList ++ []))) := by
    rw [Ipv4Addr.text]
    simp only [String.toList_append, hdot, List.append_assoc, List.cons_append, List.nil_append,
      List.append_nil, toString]
  have hnext : ∀ (rest : List Char) c, ('.' :: rest).head? = some c → toDigit 10 c = none := by
    intro rest c hc
    obtain rfl := Option.some.inj hc
    rfl
  rw [htext, readIpv4]
  simp only [readSeparator_zero, readNumber_text _ (hnext _), Option.bind_eq_bind,
    Option.bind_some, readSeparator_cons (Nat.succ_ne_zero _), UInt8.ofNat_toNat]
  have hend : ∀ c, ([] : List Char).head? = some c → toDigit 10 c = none := fun c hc => by cases hc
  rw [readNumber_text _ hend, Option.bind_some, UInt8.ofNat_toNat]

/-- An IPv4 address is read back. -/
theorem parseIpAddr_text (ip : Ipv4Addr) : parseIpAddr ip.text = some (.v4 ip) := by
  rw [parseIpAddr, readIpAddr, readIpv4_text]

/-- No address begins with a bracket. -/
theorem parseIpAddr_bracket {s : String} {cs : List Char} (h : s.toList = '[' :: cs) :
    parseIpAddr s = none := by
  have hv4 : readIpv4 ('[' :: cs) = none := by
    rw [readIpv4, readSeparator_zero, readNumber_of_none rfl]
    rfl
  have hgroups : readGroups 0 8 ('[' :: cs) = ([], false, '[' :: cs) := by
    rw [readGroups, readSeparator_zero, hv4, ite_self, readSeparator_zero, readNumber_of_none rfl]
  rw [parseIpAddr, readIpAddr, h, hv4, readIpv6, hgroups]
  rfl

/-! ## Names -/

/-- What a group behind the first one needs. -/
theorem readGroups_of_not_mem {cs : List Char} (h : ':' ∉ cs) {i : Nat} (hi : i ≠ 0) (n : Nat) :
    readGroups i n cs = ([], false, cs) := by
  have hnone : ∀ {α : Type} (inner : List Char → Option (α × List Char)),
      readSeparator ':' i inner cs = none := by
    intro α inner
    rw [Option.eq_none_iff_forall_not_mem]
    intro r hr
    obtain ⟨cs', rfl, -⟩ := readSeparator_eq_some hi hr
    exact h List.mem_cons_self
  cases n with
  | zero => rfl
  | succ n => rw [readGroups, hnone, ite_self, hnone]

/-- Without a colon there is one group, or the two of an IPv4 address. -/
theorem readIpv6_of_not_mem {cs : List Char} (h : ':' ∉ cs) : readIpv6 cs = none := by
  have hrest : ∀ {rest : List Char}, ':' ∉ rest → ∀ back, rest ≠ ':' :: ':' :: back := by
    rintro rest hmem back rfl
    exact hmem List.mem_cons_self
  have hgroups : ∃ front v4 rest, readGroups 0 8 cs = (front, v4, rest)
      ∧ front.length ≠ 8 ∧ ':' ∉ rest := by
    rw [readGroups, if_pos (by decide), readSeparator_zero, readSeparator_zero]
    cases hv4 : readIpv4 cs with
    | some r =>
        obtain ⟨ip, rest⟩ := r
        obtain ⟨pre, ds, heq, -⟩ := readIpv4_eq_some hv4
        refine ⟨ip.groups, true, rest, rfl, by simp [Ipv4Addr.groups], fun hmem => h ?_⟩
        rw [heq]
        simp [hmem]
    | none =>
        cases hnum : readNumber 16 4 65536 true cs with
        | none => exact ⟨[], false, cs, rfl, by decide, h⟩
        | some r =>
            obtain ⟨group, rest⟩ := r
            obtain ⟨ds, -, heq, -⟩ := readNumber_eq_some hnum
            have hmem : ':' ∉ rest := fun hmem => h (heq ▸ List.mem_append_right ds hmem)
            refine ⟨[UInt16.ofNat group], false, rest, ?_, by simp, hmem⟩
            dsimp only
            rw [readGroups_of_not_mem hmem (by decide)]
  obtain ⟨front, v4, rest, hgroups, hlen, hmem⟩ := hgroups
  rw [readIpv6, hgroups]
  dsimp only
  rw [if_neg hlen]
  split_ifs
  · rfl
  · split
    · exact absurd rfl (hrest hmem _)
    · rfl

/-- The text after the last dot. -/
def lastLabel (cs : List Char) : List Char := (cs.reverse.takeWhile (· != '.')).reverse

theorem lastLabel_append {ds : List Char} (h : '.' ∉ ds) (pre : List Char) :
    lastLabel (pre ++ '.' :: ds) = ds := by
  have hrev : (pre ++ '.' :: ds).reverse = ds.reverse ++ '.' :: pre.reverse := by simp
  rw [lastLabel, hrev, Text.takeWhile_append_cons (by simpa using h), List.reverse_reverse]

/-- Whether the host of a URL is taken for an IPv4 address: its last label
is a number, a dot at the end apart. -/
def endsInNumber (cs : List Char) : Bool :=
  let last := lastLabel (if cs.getLast? = some '.' then cs.dropLast else cs)
  (!last.isEmpty && last.all Char.isDigit)
    || match last with
      | '0' :: x :: digits => (x == 'x' || x == 'X') && digits.all fun c => (toDigit 16 c).isSome
      | _ => false

theorem endsInNumber_of_digits {pre ds : List Char} (hne : ds ≠ [])
    (h : ∀ c ∈ ds, (toDigit 10 c).isSome) : endsInNumber (pre ++ '.' :: ds) = true := by
  have hdot : '.' ∉ ds := fun hmem => by
    have := h '.' hmem
    revert this
    decide
  have hlast : (pre ++ '.' :: ds).getLast? ≠ some '.' := by
    rw [List.getLast?_append_of_ne_nil _ (List.cons_ne_nil _ _), List.getLast?_cons_of_ne_nil hne]
    exact fun heq => hdot (List.mem_of_getLast? heq)
  have hdigit : ∀ c ∈ ds, c.isDigit = true := fun c hc => isDigit_of_toDigit (h c hc)
  rw [endsInNumber, if_neg hlast, lastLabel_append hdot]
  have hall : ds.all Char.isDigit = true := List.all_eq_true.mpr hdigit
  have hempty : ds.isEmpty = false := by simpa using hne
  rw [hall, hempty]
  rfl

/-- The name of a host is no address. -/
theorem parseIpAddr_name {s : String} (hcolon : ':' ∉ s.toList)
    (hname : endsInNumber s.toList = false) : parseIpAddr s = none := by
  rw [parseIpAddr, readIpAddr]
  cases hv4 : readIpv4 s.toList with
  | none => rw [readIpv6_of_not_mem hcolon]; rfl
  | some r =>
      obtain ⟨ip, rest⟩ := r
      obtain ⟨pre, ds, heq, hne, hds⟩ := readIpv4_eq_some hv4
      cases rest with
      | nil =>
          rw [heq, List.append_nil, endsInNumber_of_digits hne hds] at hname
          cases hname
      | cons c rest => rfl

/-! ## Hosts -/

/-- A name, as the parser of a URL leaves it. -/
structure Domain where
  text : String
  chars : ∀ c ∈ text.toList, WhatwgUrl.forbiddenInDomain c = false
  name : endsInNumber text.toList = false

/-- The host of a URL: a name, or an address that its parser has recognised. -/
inductive Host where
  | domain (name : Domain)
  | ipv4 (ip : Ipv4Addr)
  | ipv6 (ip : Ipv6Addr)

/-- The host as the URL has it (`host_str`): an address of the sixth
version in its brackets. -/
def Host.text : Host → String
  | .domain name => name.text
  | .ipv4 ip => ip.text
  | .ipv6 ip => s!"[{ip.text}]"

theorem Host.text_ipv6 (ip : Ipv6Addr) :
    (Host.ipv6 ip).text.toList = '[' :: (ip.text.toList ++ [']']) := by
  have hopen : "[".toList = ['['] := by decide
  have hclose : "]".toList = [']'] := by decide
  rw [Host.text]
  simp only [String.toList_append, hopen, hclose, toString, List.cons_append, List.nil_append]

theorem Domain.parseIpAddr_text (d : Domain) : parseIpAddr d.text = none :=
  parseIpAddr_name (fun hmem => by cases d.chars ':' hmem) d.name

end Stelyph
