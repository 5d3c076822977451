import Stelyph.Lib.Text

/-!
# HTML as a browser reads it

The tokenizer of the HTML Standard as far as a page of forms needs it: a
doctype, tags with quoted values or none, titles and style sheets, and
character references. A page that goes outside (a comment, a script, an
unquoted value) has no tokens here.

Texts and values are cut out first and their references are read
afterwards. This comes to the same, since a reference holds neither a `<`
nor a quote. The table of named references is a parameter.
-/

namespace Stelyph

namespace Html

/-! ## Character references -/

def decimal (c : Char) : Option Nat := if c.isDigit then some (c.toNat - 48) else none

def hexadecimal (c : Char) : Option Nat :=
  if c.isDigit then some (c.toNat - 48)
  else if 'a' ≤ c ∧ c ≤ 'f' then some (c.toNat - 87)
  else if 'A' ≤ c ∧ c ≤ 'F' then some (c.toNat - 55)
  else none

/-- The control characters that are read as another code page's. -/
def c1Table : List (Nat × Nat) :=
  [(0x80, 0x20AC), (0x82, 0x201A), (0x83, 0x0192), (0x84, 0x201E), (0x85, 0x2026), (0x86, 0x2020),
    (0x87, 0x2021), (0x88, 0x02C6), (0x89, 0x2030), (0x8A, 0x0160), (0x8B, 0x2039), (0x8C, 0x0152),
    (0x8E, 0x017D), (0x91, 0x2018), (0x92, 0x2019), (0x93, 0x201C), (0x94, 0x201D), (0x95, 0x2022),
    (0x96, 0x2013), (0x97, 0x2014), (0x98, 0x02DC), (0x99, 0x2122), (0x9A, 0x0161), (0x9B, 0x203A),
    (0x9C, 0x0153), (0x9E, 0x017E), (0x9F, 0x0178)]

def charOfNumber (n : Nat) : Char :=
  if n = 0 ∨ 0x10FFFF < n ∨ 0xD800 ≤ n ∧ n ≤ 0xDFFF then '\uFFFD'
  else Char.ofNat ((c1Table.lookup n).getD n)

/-- A numbered reference from its digits on, and how many characters it
takes. -/
def numbered (value : Char → Option Nat) (base skip : Nat) (cs : List Char) :
    Option (List Char × Nat) :=
  let digits := cs.takeWhile fun c => (value c).isSome
  if digits.isEmpty then none
  else
    let n := digits.foldl (fun n c => n * base + (value c).getD 0) 0
    let semicolon := if (cs.drop digits.length).head? = some ';' then 1 else 0
    some ([charOfNumber n], skip + digits.length + semicolon)

/-- The named references of the standard, by what is written behind the
ampersand. The table has thousands of rows; what is relied on stands in
its laws. -/
structure Names where
  lookup : List Char → Option (List Char)

/-- The four references that an escaped text uses, and that no name goes
on behind its semicolon. -/
structure Names.Laws (N : Names) : Prop where
  amp : N.lookup ['a', 'm', 'p', ';'] = some ['&']
  lt : N.lookup ['l', 't', ';'] = some ['<']
  gt : N.lookup ['g', 't', ';'] = some ['>']
  quot : N.lookup ['q', 'u', 'o', 't', ';'] = some ['"']
  /-- A semicolon ends a name. -/
  semicolon : ∀ name c rest, N.lookup (name ++ ';' :: c :: rest) = none

/-- The longest name of at most `n` characters that the text starts with. -/
def Names.longest (N : Names) (cs : List Char) : Nat → Option (List Char × Nat)
  | 0 => none
  | n + 1 =>
    match N.lookup (cs.take (n + 1)) with
    | some out => some (out, n + 1)
    | none => N.longest cs n

/-- In a value, a name without its semicolon is none before an equals sign
or a letter. -/
def Names.named (N : Names) (inValue : Bool) (cs : List Char) : Option (List Char × Nat) := do
  let found ← N.longest cs cs.length
  let open_ := (cs.take found.2).getLast? != some ';'
  let glued := (cs.drop found.2).head?.any fun c => c == '=' || c.isAlphanum
  if inValue && open_ && glued then none else some found

/-- What stands for what behind an ampersand. -/
def Names.reference (N : Names) (inValue : Bool) : List Char → Option (List Char × Nat)
  | '#' :: 'x' :: cs => numbered hexadecimal 16 2 cs
  | '#' :: 'X' :: cs => numbered hexadecimal 16 2 cs
  | '#' :: cs => numbered decimal 10 1 cs
  | cs => N.named inValue cs

/-- The text with its references read, after `skip` characters. -/
def Names.decode (N : Names) (inValue : Bool) : Nat → List Char → List Char
  | _, [] => []
  | skip + 1, _ :: cs => N.decode inValue skip cs
  | 0, c :: cs =>
    if c = '&' then
      match N.reference inValue cs with
      | some (out, n) => out ++ N.decode inValue n cs
      | none => c :: N.decode inValue 0 cs
    else c :: N.decode inValue 0 cs

variable {N : Names} {inValue : Bool}

theorem decode_skip : ∀ (n : Nat) (cs : List Char),
    N.decode inValue n cs = N.decode inValue 0 (cs.drop n)
  | 0, _ => rfl
  | _ + 1, [] => rfl
  | n + 1, _ :: cs => by
      rw [Names.decode, decode_skip n cs]
      rfl

theorem decode_cons {c : Char} (h : c ≠ '&') (cs : List Char) :
    N.decode inValue 0 (c :: cs) = c :: N.decode inValue 0 cs := by
  rw [Names.decode, if_neg h]

/-- A reference that takes all of `r`. -/
theorem decode_reference {r rest out : List Char}
    (h : N.reference inValue (r ++ rest) = some (out, r.length)) :
    N.decode inValue 0 ('&' :: (r ++ rest)) = out ++ N.decode inValue 0 rest := by
  rw [Names.decode, if_pos rfl, h]
  dsimp only
  rw [decode_skip, List.drop_left]

theorem decode_append : ∀ {cs : List Char}, '&' ∉ cs → ∀ ds,
    N.decode inValue 0 (cs ++ ds) = cs ++ N.decode inValue 0 ds
  | [], _, _ => rfl
  | c :: cs, h, ds => by
      rw [List.cons_append, decode_cons (fun hc => h (hc ▸ List.mem_cons_self)),
        decode_append (fun hmem => h (List.mem_cons_of_mem _ hmem)) ds, List.cons_append]

theorem decode_of_not_mem {cs : List Char} (h : '&' ∉ cs) : N.decode inValue 0 cs = cs := by
  have hnil : N.decode inValue 0 (cs ++ []) = cs ++ N.decode inValue 0 [] := decode_append h []
  rwa [List.append_nil, Names.decode, List.append_nil] at hnil

theorem longest_semicolon (hN : N.Laws) {name out : List Char}
    (h : N.lookup (name ++ [';']) = some out) (rest : List Char) :
    ∀ n, name.length < n → n ≤ (name ++ ';' :: rest).length →
      N.longest (name ++ ';' :: rest) n = some (out, name.length + 1)
  | 0, hn, _ => absurd hn (Nat.not_lt_zero _)
  | n + 1, hn, hle => by
      rw [List.length_append, List.length_cons] at hle
      have htake : (name ++ ';' :: rest).take (n + 1)
          = name ++ ';' :: rest.take (n - name.length) := by
        rw [List.take_append, List.take_of_length_le (Nat.le_of_lt hn),
          show n + 1 - name.length = (n - name.length) + 1 by omega, List.take_succ_cons]
      rw [Names.longest, htake]
      rcases Nat.eq_or_lt_of_le (Nat.le_of_lt_succ hn) with heq | hlt
      · rw [heq, Nat.sub_self, List.take_zero, h]
      · obtain ⟨m, hm⟩ : ∃ m, n - name.length = m + 1 := ⟨n - name.length - 1, by omega⟩
        cases rest with
        | nil => exact absurd hle (by simp only [List.length_nil]; omega)
        | cons c cs =>
            rw [hm, List.take_succ_cons, hN.semicolon]
            exact longest_semicolon hN h (c :: cs) n hlt
              (by rw [List.length_append, List.length_cons]; omega)

/-- A name with its semicolon is read wherever it stands. -/
theorem reference_named (hN : N.Laws) {c : Char} {name out : List Char} (hc : c ≠ '#')
    (h : N.lookup (c :: name ++ [';']) = some out) (rest : List Char) :
    N.reference inValue (c :: name ++ ';' :: rest) = some (out, name.length + 2) := by
  have hlength : (c :: name).length < (c :: name ++ ';' :: rest).length := by
    rw [List.length_append, List.length_cons (a := ';')]
    omega
  have hlongest := longest_semicolon hN h rest _ hlength (Nat.le_refl _)
  have hlast : ((c :: name ++ ';' :: rest).take (name.length + 2)).getLast? = some ';' := by
    rw [show c :: name ++ ';' :: rest = (c :: name ++ [';']) ++ rest by simp,
      List.take_left' (by simp), List.getLast?_concat]
  rw [List.cons_append, Names.reference]
  · rw [← List.cons_append, Names.named, hlongest]
    simp only [List.length_cons, Option.bind_eq_bind, Option.bind_some, hlast, bne_self_eq_false,
      Bool.and_false, Bool.false_and, Bool.false_eq_true, if_false]
  all_goals exact fun _ h => hc (List.cons.inj h).1

/-! ## Escaped text -/

/-- What is written for `c` is read as `c`, whatever follows. -/
def Spells (N : Names) (inValue : Bool) (c : Char) (cs : List Char) : Prop :=
  ∀ rest, N.decode inValue 0 (cs ++ rest) = c :: N.decode inValue 0 rest

theorem spells_self {c : Char} (h : c ≠ '&') : Spells N inValue c [c] :=
  decode_cons h

theorem spells_named (hN : N.Laws) {c x : Char} (name : List Char) (hx : x ≠ '#')
    (h : N.lookup (x :: name ++ [';']) = some [c]) :
    Spells N inValue c ('&' :: x :: name ++ [';']) := by
  intro rest
  have href : N.reference inValue ((x :: name ++ [';']) ++ rest)
      = some ([c], (x :: name ++ [';']).length) := by
    simpa using reference_named hN hx h rest
  simpa using decode_reference href

theorem decode_flatMap {f : Char → List Char} (h : ∀ c, Spells N inValue c (f c)) :
    ∀ cs : List Char, N.decode inValue 0 (cs.flatMap f) = cs
  | [] => rfl
  | c :: cs => by rw [List.flatMap_cons, h, decode_flatMap h cs]

/-! ## Tokens -/

/-- How a text is read: its references, its null characters. -/
inductive TextKind where
  | data | title | style
deriving DecidableEq

inductive Token where
  | doctype (name : List Char)
  | text (kind : TextKind) (cs : List Char)
  | startTag (name : List Char) (attrs : List (List Char × List Char))
  | endTag (name : List Char)
deriving DecidableEq

structure Tag where
  isEnd : Bool
  name : List Char
  attrs : List (List Char × List Char)
deriving DecidableEq

/-- Of two attributes of one name the first counts. -/
def Tag.add (t : Tag) (name value : List Char) : Tag :=
  if t.attrs.any (·.1 == name) then t else { t with attrs := t.attrs ++ [(name, value)] }

/-- What was read of a text is kept backwards. -/
inductive State where
  | data (text : List Char)
  | tagOpen (text : List Char)
  | endTagOpen (text : List Char)
  | tagName (isEnd : Bool) (name : List Char)
  | beforeAttr (tag : Tag)
  | attrName (tag : Tag) (name : List Char)
  | afterAttrName (tag : Tag) (name : List Char)
  | beforeValue (tag : Tag) (name : List Char)
  | value (tag : Tag) (name text : List Char)
  | afterValue (tag : Tag)
  | special (kind : TextKind) (element text : List Char)
  | specialLess (kind : TextKind) (element text : List Char)
  | specialEnd (kind : TextKind) (element text name : List Char)
  | markup (name : List Char)
  | doctype
  | doctypeName (name : List Char)
deriving DecidableEq

/-- Carriage returns are gone by then. -/
def isBlank (c : Char) : Bool := c == ' ' || c == '\n' || c == '\t' || c == '\x0c'

def nameChar (c : Char) : Char := if c = '\x00' then '\uFFFD' else c.toLower

/-- An empty text is no token. -/
def texts (kind : TextKind) (cs : List Char) : List Token :=
  if cs.isEmpty then [] else [.text kind cs]

def flush (kind : TextKind) (text : List Char) : List Token := texts kind text.reverse

/-- How the content of an element is read. -/
def contentOf (name : List Char) : Option State :=
  if name ∈ ["title", "textarea"].map String.toList then some (.special .title name [])
  else if name ∈ ["style", "xmp", "iframe", "noembed", "noframes"].map String.toList then
    some (.special .style name [])
  else if name ∈ ["script", "noscript", "plaintext"].map String.toList then none
  else some (.data [])

def Tag.emit (t : Tag) : Option (State × List Token) :=
  if t.isEnd then some (.data [], [.endTag t.name])
  else (contentOf t.name).map (·, [.startTag t.name t.attrs])

/-- One character of the tokenizer, in the states that pages with tags,
attributes and raw text go through. `none` is where the standard goes on
to a state that is not modelled. -/
def step : State → Char → Option (State × List Token)
  | .data text, c => if c = '<' then some (.tagOpen text, []) else some (.data (c :: text), [])
  | .tagOpen text, c =>
    if c.isAlpha then some (.tagName false [c.toLower], flush .data text)
    else if c = '/' then some (.endTagOpen text, [])
    else if c = '!' then some (.markup [], flush .data text)
    else if c = '?' then none
    -- The first of two brackets is text.
    else if c = '<' then some (.tagOpen ('<' :: text), [])
    else some (.data (c :: '<' :: text), [])
  | .endTagOpen text, c =>
    if c.isAlpha then some (.tagName true [c.toLower], flush .data text) else none
  | .tagName isEnd name, c =>
    if isBlank c then some (.beforeAttr ⟨isEnd, name.reverse, []⟩, [])
    else if c = '/' then none
    else if c = '>' then Tag.emit ⟨isEnd, name.reverse, []⟩
    else some (.tagName isEnd (nameChar c :: name), [])
  | .beforeAttr tag, c =>
    if isBlank c then some (.beforeAttr tag, [])
    else if c = '/' ∨ c = '=' then none
    else if c = '>' then tag.emit
    else some (.attrName tag [nameChar c], [])
  | .attrName tag name, c =>
    if isBlank c then some (.afterAttrName tag name.reverse, [])
    else if c = '/' then none
    else if c = '=' then some (.beforeValue tag name.reverse, [])
    else if c = '>' then (tag.add name.reverse []).emit
    else some (.attrName tag (nameChar c :: name), [])
  | .afterAttrName tag name, c =>
    if isBlank c then some (.afterAttrName tag name, [])
    else if c = '/' then none
    else if c = '=' then some (.beforeValue tag name, [])
    else if c = '>' then (tag.add name []).emit
    else some (.attrName (tag.add name []) [nameChar c], [])
  | .beforeValue tag name, c =>
    if isBlank c then some (.beforeValue tag name, [])
    else if c = '"' then some (.value tag name [], [])
    else none
  | .value tag name text, c =>
    if c = '"' then some (.afterValue (tag.add name text.reverse), [])
    else some (.value tag name (c :: text), [])
  | .afterValue tag, c =>
    if isBlank c then some (.beforeAttr tag, [])
    else if c = '>' then tag.emit
    else none
  | .special kind element text, c =>
    if c = '<' then some (.specialLess kind element text, [])
    else some (.special kind element (c :: text), [])
  | .specialLess kind element text, c =>
    if c = '/' then some (.specialEnd kind element text [], [])
    else if c = '<' then some (.specialLess kind element ('<' :: text), [])
    else some (.special kind element (c :: '<' :: text), [])
  | .specialEnd kind element text name, c =>
    -- Only the end tag of the element itself counts; any other is text.
    if c.isAlpha then some (.specialEnd kind element text (c :: name), [])
    else if name.reverse.map Char.toLower = element ∧ c = '>' then
      some (.data [], flush kind text ++ [.endTag element])
    else if name.reverse.map Char.toLower = element ∧ isBlank c then
      some (.beforeAttr ⟨true, element, []⟩, flush kind text)
    else if name.reverse.map Char.toLower = element ∧ c = '/' then none
    else if c = '<' then some (.specialLess kind element (name ++ '/' :: '<' :: text), [])
    else some (.special kind element (c :: (name ++ '/' :: '<' :: text)), [])
  | .markup name, c =>
    -- Neither comments nor CDATA sections are read here.
    if (c.toLower :: name).reverse = "doctype".toList then some (.doctype, [])
    else if (c.toLower :: name).reverse.isPrefixOf "doctype".toList then
      some (.markup (c.toLower :: name), [])
    else none
  | .doctype, c =>
    if isBlank c then some (.doctype, [])
    else if c = '>' then none
    else some (.doctypeName [nameChar c], [])
  | .doctypeName name, c =>
    if c = '>' then some (.data [], [.doctype name.reverse])
    else if isBlank c then none
    else some (.doctypeName (nameChar c :: name), [])

/-- The tokenizer over a text, with what it gives out on the way. -/
def run : State → List Char → Option (State × List Token)
  | s, [] => some (s, [])
  | s, c :: cs =>
    (step s c).bind fun x => (run x.1 cs).map fun y => (y.1, x.2 ++ y.2)

/-- The characters of a line's end become one. -/
def newlines : List Char → List Char
  | [] => []
  | c :: cs =>
    if c = '\r' then if cs.head? = some '\n' then newlines cs else '\n' :: newlines cs
    else c :: newlines cs

def nulls (cs : List Char) : List Char := cs.map fun c => if c = '\x00' then '\uFFFD' else c

/-- A token with its references read, where the standard reads them: not
in raw text, and in the value of an attribute by the rule for values. -/
def Names.read (N : Names) : Token → Token
  | .text .data cs => .text .data (N.decode false 0 cs)
  | .text .title cs => .text .title (N.decode false 0 (nulls cs))
  | .text .style cs => .text .style (nulls cs)
  | .startTag name attrs => .startTag name (attrs.map fun a => (a.1, N.decode true 0 (nulls a.2)))
  | t => t

/-- A page's tokens, where it stays inside what is read here. -/
def tokens (N : Names) (page : String) : Option (List Token) := do
  match ← run (.data []) (newlines page.toList) with
  | (.data text, ts) => some ((ts ++ flush .data text).map N.read)
  | _ => none

/-! ## Reading in pieces -/

def Reads (s : State) (cs : List Char) (s' : State) (ts : List Token) : Prop :=
  run s cs = some (s', ts)

theorem reads_nil (s : State) : Reads s [] s [] := rfl

theorem reads_cons {s s' s'' : State} {c : Char} {cs : List Char} {ts us : List Token}
    (h : step s c = some (s', ts)) (h' : Reads s' cs s'' us) :
    Reads s (c :: cs) s'' (ts ++ us) := by
  rw [Reads, run, h, Option.bind_some, h']
  rfl

/-- A character that ends nothing. -/
theorem reads_silent {s s' s'' : State} {c : Char} {cs : List Char} {ts : List Token}
    (h : step s c = some (s', [])) (h' : Reads s' cs s'' ts) : Reads s (c :: cs) s'' ts :=
  reads_cons h h'

theorem reads_last {s s' : State} {c : Char} {ts : List Token} (h : step s c = some (s', ts)) :
    Reads s [c] s' ts := by
  have := reads_cons h (reads_nil s')
  rwa [List.append_nil] at this

theorem Reads.append {s s' s'' : State} {cs ds : List Char} {ts us : List Token}
    (h : Reads s cs s' ts) (h' : Reads s' ds s'' us) : Reads s (cs ++ ds) s'' (ts ++ us) := by
  induction cs generalizing s ts with
  | nil =>
      obtain ⟨rfl, rfl⟩ := Prod.mk.injEq .. |>.mp (Option.some.inj h)
      exact h'
  | cons c cs ih =>
      rw [Reads, run] at h
      obtain ⟨x, hx, h⟩ := Option.bind_eq_some_iff.mp h
      obtain ⟨y, hy, h⟩ := Option.map_eq_some_iff.mp h
      obtain ⟨rfl, rfl⟩ := Prod.mk.injEq .. |>.mp h
      rw [List.append_assoc]
      exact reads_cons hx (ih hy)

/-- Text up to the next tag. -/
theorem reads_data : ∀ {cs : List Char} (text : List Char), '<' ∉ cs →
    Reads (.data text) cs (.data (cs.reverse ++ text)) []
  | [], _, _ => rfl
  | c :: cs, text, h => by
      have hstep : step (.data text) c = some (.data (c :: text), []) :=
        if_neg fun hc => h (by rw [hc]; exact List.mem_cons_self)
      have hrest := reads_data (c :: text) fun hmem => h (List.mem_cons_of_mem _ hmem)
      rw [List.reverse_cons, List.append_assoc]
      exact reads_silent hstep hrest

theorem reads_special (kind : TextKind) (element : List Char) :
    ∀ {cs : List Char} (text : List Char), '<' ∉ cs →
      Reads (.special kind element text) cs (.special kind element (cs.reverse ++ text)) []
  | [], _, _ => rfl
  | c :: cs, text, h => by
      have hstep : step (.special kind element text) c
          = some (.special kind element (c :: text), []) :=
        if_neg fun hc => h (by rw [hc]; exact List.mem_cons_self)
      have hrest := reads_special kind element (c :: text)
        fun hmem => h (List.mem_cons_of_mem _ hmem)
      rw [List.reverse_cons, List.append_assoc]
      exact reads_silent hstep hrest

/-- A value up to its quote. -/
theorem reads_value (tag : Tag) (name : List Char) : ∀ {cs : List Char} (text : List Char),
    '"' ∉ cs → Reads (.value tag name text) cs (.value tag name (cs.reverse ++ text)) []
  | [], _, _ => rfl
  | c :: cs, text, h => by
      have hstep : step (.value tag name text) c = some (.value tag name (c :: text), []) :=
        if_neg fun hc => h (by rw [hc]; exact List.mem_cons_self)
      have hrest := reads_value tag name (c :: text) fun hmem => h (List.mem_cons_of_mem _ hmem)
      rw [List.reverse_cons, List.append_assoc]
      exact reads_silent hstep hrest

/-- What is read from an end tag on does not depend on the text before it. -/
theorem Reads.after_text_end {s : State} {c : Char} {cs : List Char} {ts : List Token}
    (hc : c.isAlpha = true) (h : Reads (.data []) ('<' :: '/' :: c :: cs) s ts)
    (text : List Char) :
    Reads (.data text) ('<' :: '/' :: c :: cs) s (flush .data text ++ ts) := by
  have hfirst : ∀ text, step (.data text) '<' = some (.tagOpen text, []) := fun _ => rfl
  have hsecond : ∀ text, step (.tagOpen text) '/' = some (.endTagOpen text, []) := fun _ => rfl
  have hthird : ∀ text, step (.endTagOpen text) c
      = some (.tagName true [c.toLower], flush .data text) := fun _ => if_pos hc
  rw [Reads, run, hfirst, Option.bind_some, run, hsecond, Option.bind_some, run, hthird,
    Option.bind_some] at h ⊢
  obtain ⟨x, hx, h⟩ := Option.map_eq_some_iff.mp h
  obtain ⟨y, hy, hyx⟩ := Option.map_eq_some_iff.mp hx
  obtain ⟨z, hz, hzy⟩ := Option.map_eq_some_iff.mp hy
  obtain ⟨rfl, rfl⟩ := Prod.mk.injEq .. |>.mp h
  rw [hz, ← hyx, ← hzy]
  rfl

/-- The end of a title or a style sheet. -/
theorem reads_special_end {kind : TextKind} {element : List Char} (text : List Char) :
    ∀ {cs name : List Char}, (∀ c ∈ cs, c.isAlpha = true) →
      (cs.reverse ++ name).reverse.map Char.toLower = element →
      Reads (.specialEnd kind element text name) (cs ++ ['>']) (.data [])
        (flush kind text ++ [.endTag element])
  | [], name, _, hname => by
      have hstep : step (.specialEnd kind element text name) '>'
          = some (.data [], flush kind text ++ [.endTag element]) := by
        rw [step, if_neg (by decide), if_pos ⟨hname, rfl⟩]
      exact reads_last hstep
  | c :: cs, name, hcs, hname => by
      have hstep : step (.specialEnd kind element text name) c
          = some (.specialEnd kind element text (c :: name), []) :=
        if_pos (hcs c List.mem_cons_self)
      refine reads_silent hstep (reads_special_end text
        (fun d hd => hcs d (List.mem_cons_of_mem _ hd)) ?_)
      rwa [List.reverse_cons, List.append_assoc] at hname

theorem reads_closing {kind : TextKind} {element : List Char} (text : List Char)
    (h : ∀ c ∈ element, c.isAlpha = true) (hlower : element.map Char.toLower = element) :
    Reads (.special kind element text) ('<' :: '/' :: (element ++ ['>'])) (.data [])
      (flush kind text ++ [.endTag element]) := by
  have hfirst : step (.special kind element text) '<'
      = some (.specialLess kind element text, []) := rfl
  have hsecond : step (.specialLess kind element text) '/'
      = some (.specialEnd kind element text [], []) := rfl
  refine reads_silent hfirst (reads_silent hsecond (reads_special_end text h ?_))
  rw [List.append_nil, List.reverse_reverse, hlower]

/-- The quote and the bracket behind a value. -/
theorem reads_value_end {tag : Tag} {name text : List Char} {s : State} {ts : List Token}
    (h : (tag.add name text.reverse).emit = some (s, ts)) :
    Reads (.value tag name text) ['"', '>'] s ts := by
  have hfirst : step (.value tag name text) '"'
      = some (.afterValue (tag.add name text.reverse), []) := rfl
  have hsecond : step (.afterValue (tag.add name text.reverse)) '>' = some (s, ts) := h
  exact reads_silent hfirst (reads_last hsecond)

/-! ## Line ends -/

theorem newlines_cons {c : Char} (hc : c ≠ '\r') (cs : List Char) :
    newlines (c :: cs) = c :: newlines cs :=
  if_neg hc

/-- A line's end is not cut in two. -/
theorem newlines_append : ∀ (cs : List Char) {ds : List Char},
    cs.getLast? ≠ some '\r' ∨ ds.head? ≠ some '\n' →
      newlines (cs ++ ds) = newlines cs ++ newlines ds
  | [], _, _ => rfl
  | [c], ds, h => by
      rw [List.singleton_append, newlines, newlines]
      by_cases hc : c = '\r'
      · have hd : ds.head? ≠ some '\n' := h.resolve_left fun h => h (by rw [hc]; rfl)
        rw [if_neg hd]
        split <;> rfl
      · simp only [hc, if_false]
        rfl
  | c :: d :: cs, ds, h => by
      have ih : newlines (d :: cs ++ ds) = newlines (d :: cs) ++ newlines ds :=
        newlines_append (d :: cs) (by simpa using h)
      rw [List.cons_append, newlines, newlines, ih]
      by_cases hc : c = '\r'
      · by_cases hd : some d = some '\n' <;>
          simp only [List.cons_append, List.head?_cons, hc, hd, if_true, if_false]
      · simp only [List.cons_append, hc, if_false]

theorem newlines_plain_append : ∀ {cs : List Char}, '\r' ∉ cs → ∀ ds,
    newlines (cs ++ ds) = cs ++ newlines ds
  | [], _, _ => rfl
  | c :: cs, h, ds => by
      have hc : c ≠ '\r' := fun hc => h (by rw [hc]; exact List.mem_cons_self)
      have ih := newlines_plain_append (fun hmem => h (List.mem_cons_of_mem _ hmem)) ds
      rw [List.cons_append, newlines_cons hc, ih, List.cons_append]

theorem newlines_of_not_mem {cs : List Char} (h : '\r' ∉ cs) : newlines cs = cs := by
  have := newlines_plain_append h []
  rwa [List.append_nil, newlines, List.append_nil] at this

/-- Where each character is written by itself, and line ends are kept. -/
theorem newlines_flatMap {f : Char → List Char} (hr : f '\r' = ['\r']) (hn : f '\n' = ['\n'])
    (h : ∀ c, c ≠ '\r' → c ≠ '\n' → '\r' ∉ f c ∧ ∃ d ds, f c = d :: ds ∧ d ≠ '\n') :
    ∀ cs : List Char, newlines (cs.flatMap f) = (newlines cs).flatMap f
  | [] => rfl
  | c :: cs => by
      have ih := newlines_flatMap hr hn h cs
      have hhead : ∀ ds : List Char, (ds.flatMap f).head? = some '\n' ↔ ds.head? = some '\n' := by
        intro ds
        cases ds with
        | nil => rfl
        | cons d ds =>
            rw [List.flatMap_cons, List.head?_cons]
            by_cases hdn : d = '\n'
            · simp [hdn, hn]
            · by_cases hdr : d = '\r'
              · simp [hdr, hr]
              · obtain ⟨-, x, xs, hx, hne⟩ := h d hdr hdn
                simp [hx, hne, hdn]
      rw [List.flatMap_cons]
      by_cases hcr : c = '\r'
      · rw [hcr, hr, List.singleton_append, newlines, newlines, ih]
        simp only [hhead, if_true]
        split_ifs
        · rfl
        · rw [List.flatMap_cons, hn]
          rfl
      · rw [newlines_cons hcr, List.flatMap_cons, ← ih]
        by_cases hcn : c = '\n'
        · rw [hcn, hn]
          exact newlines_cons (by decide) _
        · obtain ⟨hmem, -⟩ := h c hcr hcn
          exact newlines_plain_append hmem _

/-! ## Spelled text

A server writes a text character by character. What such a spelling has to
obey so that the text is read as it was.
-/

structure Spelling (N : Names) (f : Char → List Char) : Prop where
  spells : ∀ inValue c, Spells N inValue c (f c)
  cr : f '\r' = ['\r']
  lf : f '\n' = ['\n']
  lines : ∀ c, c ≠ '\r' → c ≠ '\n' → '\r' ∉ f c ∧ ∃ d ds, f c = d :: ds ∧ d ≠ '\n'
  null : ∀ c, nulls (f c) = f (if c = '\x00' then '\uFFFD' else c)
  tagFree : ∀ c, '<' ∉ f c
  quoteFree : ∀ c, '"' ∉ f c

section

variable {f : Char → List Char} (hf : Spelling N f)
include hf

theorem Spelling.newlines_eq (cs : List Char) : newlines (cs.flatMap f) = (newlines cs).flatMap f :=
  newlines_flatMap hf.cr hf.lf hf.lines cs

theorem Spelling.nulls_eq : ∀ cs : List Char, nulls (cs.flatMap f) = (nulls cs).flatMap f
  | [] => rfl
  | c :: cs => by
      have ih := Spelling.nulls_eq cs
      simp only [nulls, List.flatMap_cons, List.map_append, List.map_cons] at ih ⊢
      rw [ih, ← hf.null c]
      rfl

theorem Spelling.not_mem {x : Char} (hx : ∀ c, x ∉ f c) (cs : List Char) :
    x ∉ newlines (cs.flatMap f) := by
  rw [hf.newlines_eq]
  intro hmem
  obtain ⟨c, -, hc⟩ := List.mem_flatMap.mp hmem
  exact hx c hc

theorem Spelling.isEmpty_eq (cs : List Char) : (cs.flatMap f).isEmpty = cs.isEmpty := by
  cases cs with
  | nil => rfl
  | cons c cs =>
      have hne : f c ≠ [] := by
        by_cases hr : c = '\r'
        · simp [hr, hf.cr]
        · by_cases hn : c = '\n'
          · simp [hn, hf.lf]
          · obtain ⟨-, d, ds, hd, -⟩ := hf.lines c hr hn
            simp [hd]
      simp [List.flatMap_cons, hne]

theorem Spelling.decode_field (inValue : Bool) (cs : List Char) :
    N.decode inValue 0 (nulls (newlines (cs.flatMap f))) = nulls (newlines cs) := by
  rw [hf.newlines_eq, hf.nulls_eq, decode_flatMap fun c => hf.spells inValue c]

end

/-! ## What a text says -/

/-- The text takes the browser from one state to the other, and these are
the tokens in it. -/
def Says (N : Names) (s : State) (text : List Char) (s' : State) (ts : List Token) : Prop :=
  ∃ raw, Reads s (newlines text) s' raw ∧ raw.map N.read = ts ∧ text.getLast? ≠ some '\r'

theorem says_nil (s : State) : Says N s [] s [] := ⟨[], reads_nil s, rfl, by decide⟩

theorem Says.append {s s' s'' : State} {text more : List Char} {ts us : List Token}
    (h : Says N s text s' ts) (h' : Says N s' more s'' us) :
    Says N s (text ++ more) s'' (ts ++ us) := by
  obtain ⟨raw, hraw, rfl, hlast⟩ := h
  obtain ⟨raw', hraw', rfl, hlast'⟩ := h'
  refine ⟨raw ++ raw', ?_, List.map_append .., ?_⟩
  · rw [newlines_append text (Or.inl hlast)]
    exact hraw.append hraw'
  · rw [List.getLast?_append]
    cases hmore : more.getLast? with
    | none => simpa using hlast
    | some c => simpa [hmore] using hlast'

theorem tokens_of_says {page : String} {ts : List Token}
    (h : Says N (.data []) page.toList (.data []) ts) : tokens N page = some ts := by
  obtain ⟨raw, hraw, rfl, -⟩ := h
  rw [tokens, hraw]
  exact congrArg (fun ts : List Token => some (ts.map N.read)) (List.append_nil raw)

/-- A token that is read as it stands. -/
def Token.isPlain : Token → Bool
  | .text _ cs => !cs.contains '&' && !cs.contains '\x00'
  | .startTag _ attrs => attrs.all fun a => !a.2.contains '&' && !a.2.contains '\x00'
  | _ => true

theorem nulls_of_not_mem {cs : List Char} (h : '\x00' ∉ cs) : nulls cs = cs := by
  refine (List.map_congr_left fun c hc => ?_).trans (List.map_id cs)
  exact if_neg fun h0 => h (by rwa [h0] at hc)

theorem nulls_append {cs : List Char} (h : '\x00' ∉ cs) (ds : List Char) :
    nulls (cs ++ ds) = cs ++ nulls ds := by
  rw [nulls, List.map_append]
  exact congrArg (· ++ nulls ds) (nulls_of_not_mem h)

theorem read_of_isPlain {t : Token} (h : t.isPlain = true) : N.read t = t := by
  cases t with
  | doctype name => rfl
  | endTag name => rfl
  | text kind cs =>
      simp only [Token.isPlain, Bool.and_eq_true, Bool.not_eq_true', List.contains_eq_mem,
        decide_eq_false_iff_not] at h
      cases kind <;> simp only [Names.read, nulls_of_not_mem h.2, decode_of_not_mem h.1]
  | startTag name attrs =>
      simp only [Token.isPlain, List.all_eq_true, Bool.and_eq_true, Bool.not_eq_true',
        List.contains_eq_mem, decide_eq_false_iff_not] at h
      have hattrs : attrs.map (fun a => (a.1, N.decode true 0 (nulls a.2))) = attrs := by
        refine (List.map_congr_left fun a ha => ?_).trans (List.map_id attrs)
        rw [nulls_of_not_mem (h a ha).2, decode_of_not_mem (h a ha).1]
        rfl
      rw [Names.read, hattrs]

theorem map_read_of_isPlain {ts : List Token} (h : ts.all Token.isPlain = true) :
    ts.map N.read = ts :=
  (List.map_congr_left fun t ht => read_of_isPlain (List.all_eq_true.mp h t ht)).trans
    (List.map_id ts)

/-- A piece of the page that is always the same. -/
theorem says_literal {s s' : State} {text : List Char} {ts : List Token}
    (h : run s text = some (s', ts) ∧ '\r' ∉ text ∧ ts.all Token.isPlain = true) :
    Says N s text s' ts := by
  obtain ⟨hrun, hline, hplain⟩ := h
  refine ⟨ts, ?_, map_read_of_isPlain hplain, fun h => hline (List.mem_of_getLast? h)⟩
  rw [newlines_of_not_mem hline]
  exact hrun

theorem not_mem_closing {element : List Char} (h : ∀ c ∈ element, c.isAlpha = true) :
    '\r' ∉ '<' :: '/' :: (element ++ ['>']) := by
  simp only [List.mem_cons, List.mem_append, List.not_mem_nil, or_false, not_or]
  exact ⟨by decide, by decide, fun hmem => absurd (h _ hmem) (by decide), by decide⟩

/-- Behind a text that is read in full. -/
theorem getLast?_append_ne {cs ds : List Char} {x : Char} (hne : ds ≠ [])
    (h : ds.getLast? ≠ some x) : (cs ++ ds).getLast? ≠ some x := by
  rw [List.getLast?_append]
  cases hds : ds.getLast? with
  | none => exact absurd (List.getLast?_eq_none_iff.mp hds) hne
  | some c => simpa [hds] using h

/-- A style sheet that is always the same. -/
theorem says_style {s : State} {content rest : List Char} {ts : List Token} (element : List Char)
    (hcontent : '<' ∉ content ∧ '\r' ∉ content ∧ '\x00' ∉ content) (hsome : content.isEmpty = false)
    (halpha : element.all Char.isAlpha = true) (hlower : element.map Char.toLower = element)
    (h : Says N (.data []) rest s ts) (hne : rest ≠ []) :
    Says N (.special .style element []) (content ++ '<' :: '/' :: (element ++ ['>']) ++ rest) s
      (.text .style content :: .endTag element :: ts) := by
  obtain ⟨raw, hraw, rfl, hlast⟩ := h
  have helement := List.all_eq_true.mp halpha
  have hreads := (reads_special .style element [] hcontent.1).append
    ((reads_closing _ helement hlower).append hraw)
  rw [List.nil_append, flush, List.append_nil, List.reverse_reverse, texts, hsome,
    ← newlines_plain_append (not_mem_closing helement), ← newlines_plain_append hcontent.2.1,
    ← List.append_assoc] at hreads
  refine ⟨_, hreads, ?_, getLast?_append_ne hne hlast⟩
  simp only [Bool.false_eq_true, if_false, List.cons_append,
    List.nil_append, List.map_cons, Names.read, nulls_of_not_mem hcontent.2.2]

/-- A tag of an element's end comes first. -/
def EndTagFirst (text : List Char) : Prop :=
  ∃ c cs, text = '<' :: '/' :: c :: cs ∧ c.isAlpha = true

section

variable {f : Char → List Char} (hf : Spelling N f)
include hf

/-- A spelled text, up to the end of its element. -/
theorem says_text {s : State} {rest : List Char} {ts : List Token} (hrest : EndTagFirst rest)
    (h : Says N (.data []) rest s ts) (cs : List Char) :
    Says N (.data []) (cs.flatMap f ++ rest) s (texts .data (newlines cs) ++ ts) := by
  obtain ⟨raw, hraw, rfl, hlast⟩ := h
  obtain ⟨c, rest, rfl, hc⟩ := hrest
  have hcr : c ≠ '\r' := fun h => absurd (h ▸ hc) (by decide)
  have hnewlines : newlines ('<' :: '/' :: c :: rest) = '<' :: '/' :: c :: newlines rest := by
    rw [newlines_cons (by decide), newlines_cons (by decide), newlines_cons hcr]
  rw [hnewlines] at hraw
  have hreads := (reads_data [] (hf.not_mem hf.tagFree cs)).append (hraw.after_text_end hc _)
  rw [List.nil_append, flush, List.append_nil, List.reverse_reverse] at hreads
  rw [← hnewlines, ← newlines_append _ (Or.inr (by simp))] at hreads
  refine ⟨_, hreads, ?_, getLast?_append_ne (List.cons_ne_nil _ _) hlast⟩
  rw [List.map_append, texts, texts, hf.newlines_eq, hf.isEmpty_eq]
  split_ifs
  · rfl
  · rw [List.map_singleton, Names.read, decode_flatMap fun c => hf.spells false c]

/-- A spelled title behind the start of one. -/
theorem says_title {s : State} {rest before : List Char} {ts : List Token} (element : List Char)
    (hbefore : '<' ∉ before ∧ '&' ∉ before ∧ '\r' ∉ before ∧ '\x00' ∉ before)
    (halpha : element.all Char.isAlpha = true) (hlower : element.map Char.toLower = element)
    (h : Says N (.data []) rest s ts) (hne : rest ≠ []) (cs : List Char) :
    Says N (.special .title element [])
      (before ++ cs.flatMap f ++ ('<' :: '/' :: (element ++ ['>'])) ++ rest) s
      (texts .title (before ++ nulls (newlines cs)) ++ .endTag element :: ts) := by
  obtain ⟨raw, hraw, rfl, hlast⟩ := h
  have helement := List.all_eq_true.mp halpha
  have htext : '<' ∉ before ++ newlines (cs.flatMap f) := fun h =>
    (List.mem_append.mp h).elim hbefore.1 (hf.not_mem hf.tagFree cs)
  have hreads := (reads_special .title element [] htext).append
    ((reads_closing _ helement hlower).append hraw)
  rw [List.nil_append, flush, List.append_nil, List.reverse_reverse] at hreads
  rw [← newlines_plain_append (not_mem_closing helement), List.append_assoc,
    ← newlines_append _ (Or.inr (by simp)),
    ← newlines_plain_append hbefore.2.2.1, ← List.append_assoc, ← List.append_assoc] at hreads
  refine ⟨_, hreads, ?_, getLast?_append_ne hne hlast⟩
  have hdecode : N.decode false 0 (nulls (before ++ newlines (cs.flatMap f)))
      = before ++ nulls (newlines cs) := by
    rw [nulls_append hbefore.2.2.2, decode_append hbefore.2.1, hf.decode_field]
  have hempty : (before ++ newlines (cs.flatMap f)).isEmpty
      = (before ++ nulls (newlines cs)).isEmpty := by
    cases before with
    | nil => rw [List.nil_append, List.nil_append, hf.newlines_eq, hf.isEmpty_eq, nulls,
        List.isEmpty_map]
    | cons c cs => rfl
  rw [List.append_assoc, List.map_append, texts, texts, hempty]
  split_ifs
  · rfl
  · rw [List.map_singleton, Names.read, hdecode]
    rfl

/-- A spelled value, up to the end of its tag. -/
theorem says_value {s s' : State} {name rest : List Char} {ts : List Token} (tag : Tag)
    (attrs : List (List Char × List Char))
    (htag : ∀ value, (tag.add name value).emit
      = some (s, [.startTag tag.name (attrs ++ [(name, value)])]))
    (hattrs : (Token.startTag tag.name attrs).isPlain = true)
    (h : Says N s rest s' ts) (hne : rest ≠ []) (cs : List Char) :
    Says N (.value tag name []) (cs.flatMap f ++ ['"', '>'] ++ rest) s'
      (.startTag tag.name (attrs ++ [(name, nulls (newlines cs))]) :: ts) := by
  obtain ⟨raw, hraw, rfl, hlast⟩ := h
  have hreads := (reads_value tag name [] (hf.not_mem hf.quoteFree cs)).append
    ((reads_value_end (htag _)).append hraw)
  rw [List.nil_append, List.append_nil, List.reverse_reverse] at hreads
  rw [← newlines_plain_append (by decide : '\r' ∉ ['"', '>']),
    ← newlines_append _ (Or.inr (by simp)), ← List.append_assoc] at hreads
  refine ⟨_, hreads, ?_, getLast?_append_ne hne hlast⟩
  have hplain := read_of_isPlain (N := N) hattrs
  simp only [Names.read, Token.startTag.injEq, true_and] at hplain
  rw [List.singleton_append, List.map_cons, Names.read, List.map_append, hplain,
    List.map_singleton, hf.decode_field]

end

end Html

end Stelyph
