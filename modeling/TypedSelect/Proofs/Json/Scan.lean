/-
The texts of strings and of elements.

A string is written character by character, each as itself or as an
escape, and elements stand between a pair of brackets with a comma behind
all but the last and any blanks around each. The scanners take such texts,
once a scanner takes each element wherever it stands, and they take no
other.

# Two directions

Everything here comes twice. What a scanner takes is a text of what it
finds (`Sound`, and the lemmas whose names end in `eq_some`), and every
text of something is taken as that (`Reads`). The first is by following
the scanner, the second by following the text. Between the two a text and
a value determine each other, which is more than reading back what was
written: it is true of texts that no writer writes.

# Elements

`Continued` and `Enclosed` are lists of elements as written, for any kind
of element and any closing character, so that arrays and objects are
treated once. What an element is, the reader finds out by calling itself
one level deeper; here it is a scanner and a relation that are given.

# Fuel

The scanners count their steps. A text has at most as many parts as it has
characters, so fuel for the length of the text is enough for all of it,
and the fuel for the whole input is enough for every text in it.
-/
import Mathlib.Data.List.Basic
import TypedSelect.Proofs.Json.Numeral

namespace TypedSelect

namespace Json

open Numeral (Ender)

variable {α : Type} {rest : List Char}

-- ============================================================= blanks

/-- Nothing but blanks. -/
def AllBlank (gap : List Char) : Prop := ∀ c ∈ gap, isBlank c = true

theorem allBlank_nil : AllBlank [] := fun _ hc => by cases hc

/-- A line break and what it is indented by are blank. -/
theorem allBlank_newline (depth : Nat) : AllBlank (newline depth) := by
  intro c hc
  rcases List.mem_cons.1 hc with rfl | hc
  · rfl
  · rw [List.eq_of_mem_replicate hc]
    rfl

/-- Blanks are skipped up to what is no blank. -/
theorem skipBlanks_append {gap : List Char} (hgap : AllBlank gap) {c : Char}
    (hc : isBlank c = false) (more : List Char) : skipBlanks (gap ++ c :: more) = c :: more := by
  refine (span_append hgap ?_).2
  rintro d ⟨⟩
  exact hc

theorem ender_of_blank {c : Char} (hc : isBlank c = true) : Ender c := by
  simp only [isBlank, Bool.or_eq_true, decide_eq_true_eq] at hc
  rcases hc with ((rfl | rfl) | rfl) | rfl <;> decide

theorem skipBlanks_eq (s : List Char) : ∃ gap, AllBlank gap ∧ s = gap ++ skipBlanks s := by
  refine ⟨s.takeWhile isBlank, fun c hc => ?_, List.takeWhile_append_dropWhile.symm⟩
  exact List.mem_takeWhile_imp hc

/-- A word that was dropped stood in front of the rest. -/
theorem eq_append_of_dropWord {word s : List Char} (h : dropWord word s = some rest) :
    s = word ++ rest := by
  unfold dropWord at h
  exact (List.isPrefixOf?_eq_some_iff_append_eq.1 h).symm

-- ============================================================ strings

/-- A character of a string as written: itself, or an escape of it. -/
inductive CharText : Char → List Char → Prop
  | plain {c : Char} (quote : c ≠ '"') (slash : c ≠ '\\') (control : ¬ c.toNat < 32) :
      CharText c [c]
  | escape {c : Char} {text : List Char} (reads : readEscape text = some (c, [])) :
      CharText c ('\\' :: text)

/-- The characters of a string as written behind its opening quote. -/
inductive CharsText : List Char → List Char → Prop
  | nil : CharsText [] ['"']
  | cons {c : Char} {chars text more : List Char} (head : CharText c text)
      (tail : CharsText chars more) : CharsText (c :: chars) (text ++ more)

/-- Four hexadecimal digits that were read stood in front of the rest, and
are read whatever comes behind them. -/
theorem readHex4_eq_some {s : List Char} {unit : Nat} (h : readHex4 s = some (unit, rest)) :
    ∃ digits, s = digits ++ rest ∧ ∀ rest', readHex4 (digits ++ rest') = some (unit, rest') := by
  unfold readHex4 at h
  split at h
  next a b c d s =>
    obtain ⟨va, ha, h⟩ := Option.bind_eq_some_iff.1 h
    obtain ⟨vb, hb, h⟩ := Option.bind_eq_some_iff.1 h
    obtain ⟨vc, hc, h⟩ := Option.bind_eq_some_iff.1 h
    obtain ⟨vd, hd, h⟩ := Option.bind_eq_some_iff.1 h
    cases h
    refine ⟨[a, b, c, d], rfl, fun rest' => ?_⟩
    simp [readHex4, ha, hb, hc, hd]
  next => cases h

/-- So it is with the escape of a code point. One beyond the basic plane is
written as a pair of escapes, and both are taken together. -/
theorem readUnicode_eq_some {s : List Char} {c : Char} (h : readUnicode s = some (c, rest)) :
    ∃ text, s = text ++ rest ∧ ∀ rest', readUnicode (text ++ rest') = some (c, rest') := by
  obtain ⟨⟨unit, _⟩, hunit, hrest⟩ := Option.bind_eq_some_iff.1 h
  obtain ⟨digits, rfl, hdigits⟩ := readHex4_eq_some hunit
  dsimp only at hrest
  split at hrest
  next hplain =>
    cases hrest
    refine ⟨digits, rfl, fun rest' => ?_⟩
    simp [readUnicode, hdigits, hplain]
  next hplain =>
  split at hrest
  next => cases hrest
  next hhigh =>
    -- the first half of a pair, which the escape of the second half has to follow
    obtain ⟨_, hword, hpair⟩ := Option.bind_eq_some_iff.1 hrest
    obtain rfl := eq_append_of_dropWord hword
    obtain ⟨⟨low, _⟩, hlow, hdone⟩ := Option.bind_eq_some_iff.1 hpair
    obtain ⟨digits', rfl, hdigits'⟩ := readHex4_eq_some hlow
    dsimp only at hdone
    split at hdone
    next hin =>
      obtain ⟨rfl, rfl⟩ := Prod.mk.inj (Option.some.inj hdone)
      refine ⟨digits ++ (['\\', 'u'] ++ digits'), by simp only [List.append_assoc], fun rest' => ?_⟩
      have hdrop : dropWord ['\\', 'u'] (['\\', 'u'] ++ (digits' ++ rest')) =
          some (digits' ++ rest') := rfl
      unfold readUnicode
      simp only [List.append_assoc, hdigits, Option.bind_eq_bind, Option.bind_some]
      rw [if_neg hplain, if_neg hhigh, hdrop]
      simp only [hdigits', Option.bind_some]
      rw [if_pos hin]
      rfl
    next => cases hdone

/-- What is taken for an escape is taken for it whatever comes next. -/
theorem readEscape_eq_some {s : List Char} {c : Char} (h : readEscape s = some (c, rest)) :
    ∃ text, s = text ++ rest ∧ ∀ rest', readEscape (text ++ rest') = some (c, rest') := by
  unfold readEscape at h
  split at h
  case h_9 s =>
    obtain ⟨text, rfl, htext⟩ := readUnicode_eq_some h
    exact ⟨'u' :: text, rfl, htext⟩
  case h_10 => cases h
  all_goals
    cases h
    exact ⟨[_], rfl, fun _ => rfl⟩

/-- What is taken for the characters of a string are these as written. The
reader keeps those that it has done in reverse, and each escape uses up what
it stands for. -/
theorem readChars_eq_some {fuel : Nat} {done s chars : List Char}
    (h : readChars fuel done s = some (chars, rest)) :
    ∃ more text, chars = done.reverse ++ more ∧ s = text ++ rest ∧ CharsText more text := by
  -- `done` are the characters taken before, the last one first
  induction fuel generalizing done s with
  | zero => cases h
  | succ fuel ih =>
      cases s with
      | nil => cases h
      | cons c s =>
          unfold readChars at h
          split at h
          next hquote =>
            cases h
            subst hquote
            exact ⟨[], _, (List.append_nil _).symm, rfl, .nil⟩
          next hquote =>
          split at h
          next hslash =>
            subst hslash
            obtain ⟨⟨e, _⟩, hescape, hdone⟩ := Option.bind_eq_some_iff.1 h
            obtain ⟨text, rfl, htext⟩ := readEscape_eq_some hescape
            obtain ⟨more, text', rfl, rfl, hmore⟩ := ih hdone
            have hone : readEscape text = some (e, []) := by simpa using htext []
            exact ⟨e :: more, '\\' :: text ++ text', by simp, by simp,
              .cons (.escape hone) hmore⟩
          next hslash =>
          split at h
          next => cases h
          next hcontrol =>
            obtain ⟨more, text, rfl, rfl, hmore⟩ := ih h
            exact ⟨c :: more, [c] ++ text, by simp, rfl,
              .cons (.plain hquote hslash hcontrol) hmore⟩

/-- What is taken for a string is the string as written. -/
theorem readString_eq_some {fuel : Nat} {s : List Char} {read : String}
    (h : readString fuel s = some (read, rest)) :
    ∃ text, s = text ++ rest ∧ CharsText read.toList text := by
  obtain ⟨⟨chars, _⟩, hchars, h⟩ := Option.map_eq_some_iff.1 h
  cases h
  obtain ⟨more, text, rfl, rfl, hmore⟩ := readChars_eq_some hchars
  rw [String.toList_ofList]
  exact ⟨text, rfl, hmore⟩

/-- A character is taken from any text of it. -/
theorem readChars_charText {fuel : Nat} {done text : List Char} {c : Char} (h : CharText c text)
    (rest : List Char) :
    readChars (fuel + 1) done (text ++ rest) = readChars fuel (c :: done) rest := by
  cases h with
  | plain hquote hslash hcontrol =>
      rw [List.singleton_append, readChars, if_neg hquote, if_neg hslash, if_neg hcontrol]
  | escape hreads =>
      obtain ⟨text, htext, hreads⟩ := readEscape_eq_some hreads
      rw [List.append_nil] at htext
      subst htext
      rw [List.cons_append, readChars, if_neg (by decide), if_pos rfl, hreads]
      rfl

/-- The characters of a string are taken one by one, up to its closing quote.
-/
theorem readChars_charsText {fuel : Nat} {done chars text : List Char} (h : CharsText chars text)
    (hfuel : text.length ≤ fuel) (rest : List Char) :
    readChars fuel done (text ++ rest) = some (done.reverse ++ chars, rest) := by
  induction h generalizing fuel done with
  | nil =>
      obtain ⟨fuel, rfl⟩ := Nat.exists_eq_add_of_le' hfuel
      simp [readChars]
  | @cons c chars text more head tail ih =>
      have hpos : 1 ≤ text.length := by cases head <;> simp
      rw [List.length_append] at hfuel
      obtain ⟨fuel, rfl⟩ := Nat.exists_eq_add_of_le' (show 1 ≤ fuel by omega)
      rw [List.append_assoc, readChars_charText head, ih (by omega)]
      simp

/-- A string is read from any of its texts. -/
theorem readString_charsText {fuel : Nat} {s : String} {text : List Char}
    (h : CharsText s.toList text) (hfuel : text.length ≤ fuel) (rest : List Char) :
    readString fuel (text ++ rest) = some (s, rest) := by
  unfold readString
  rw [readChars_charsText h hfuel, List.reverse_nil, List.nil_append]
  exact congrArg (fun read => some (read, rest)) String.ofList_toList

/-- A hexadecimal digit is read as the number that it was written for. -/
theorem hexValue?_hexDigit : ∀ n < 16, hexValue? (hexDigit n) = some n := by decide

/-- A control character is read back from its four digits. Its code is below
32, so the first two of them are zero. -/
theorem readUnicode_control {c : Char} (hc : c.toNat < 32) (rest : List Char) :
    readUnicode ('0' :: '0' :: hexDigit (c.toNat / 16) :: hexDigit (c.toNat % 16) :: rest) =
      some (c, rest) := by
  have hhigh := hexValue?_hexDigit (c.toNat / 16) (by omega)
  have hlow := hexValue?_hexDigit (c.toNat % 16) (by omega)
  have hunit : c.toNat / 16 * 16 + c.toNat % 16 = c.toNat := by omega
  have hhex : readHex4
      ('0' :: '0' :: hexDigit (c.toNat / 16) :: hexDigit (c.toNat % 16) :: rest) =
        some (c.toNat, rest) := by
    have hzero : hexValue? '0' = some 0 := by decide
    simp only [readHex4, hzero, hhigh, hlow, Option.bind_eq_bind, Option.bind_some,
      Nat.zero_mul, Nat.zero_add, hunit]
    rfl
  unfold readUnicode
  rw [hhex]
  simp only [Option.bind_eq_bind, Option.bind_some]
  rw [if_pos (.inl (by omega)), Char.ofNat_toNat]
  rfl

/-- What a writer puts for a character is a text of it. The cases are those
of the writer, and each of its escapes is one that the reader knows. -/
theorem charText_escape (c : Char) : CharText c (escape c) := by
  unfold escape
  split
  next h => subst h; exact .escape rfl
  next hquote =>
  split
  next h => subst h; exact .escape rfl
  next hslash =>
  split
  next h => subst h; exact .escape rfl
  split
  next h => subst h; exact .escape rfl
  split
  next h => subst h; exact .escape rfl
  split
  next h =>
    -- the writer goes by the code here, and the reader by the letter
    obtain rfl : c = Char.ofNat 8 := by rw [← h, Char.ofNat_toNat]
    exact .escape rfl
  split
  next h =>
    obtain rfl : c = Char.ofNat 12 := by rw [← h, Char.ofNat_toNat]
    exact .escape rfl
  split
  next h => exact .escape (readUnicode_control h [])
  next h => exact .plain hquote hslash h

/-- What a writer puts for a string is a text of its characters. -/
theorem charsText_flatMap (chars : List Char) :
    CharsText chars (chars.flatMap escape ++ ['"']) := by
  induction chars with
  | nil => exact .nil
  | cons c chars ih =>
      rw [List.flatMap_cons, List.append_assoc]
      exact .cons (charText_escape c) ih

-- =========================================================== elements

/-- What stands behind an element: the closing character, or a comma and
more elements. -/
inductive Continued (element : α → List Char → Prop) (close : Char) : List α → List Char → Prop
  | close {gap : List Char} (blank : AllBlank gap) : Continued element close [] (gap ++ [close])
  | comma {x : α} {xs : List α} {gap space text more : List Char} (blank : AllBlank gap)
      (blank' : AllBlank space) (head : element x text) (tail : Continued element close xs more) :
      Continued element close (x :: xs) (gap ++ ',' :: (space ++ (text ++ more)))

/-- What stands behind the opening character. -/
inductive Enclosed (element : α → List Char → Prop) (close : Char) : List α → List Char → Prop
  | empty {gap : List Char} (blank : AllBlank gap) : Enclosed element close [] (gap ++ [close])
  | elements {x : α} {xs : List α} {space text more : List Char} (blank : AllBlank space)
      (head : element x text) (tail : Continued element close xs more) :
      Enclosed element close (x :: xs) (space ++ (text ++ more))

/-- The relation of elements to texts may be weakened, element by element. -/
theorem Continued.imp {p q : α → List Char → Prop} {close : Char} {xs : List α}
    {text : List Char} (h : Continued p close xs text)
    (hpq : ∀ x ∈ xs, ∀ {text}, p x text → q x text) : Continued q close xs text := by
  induction h with
  | close hgap => exact .close hgap
  | comma hgap hspace head _ ih =>
      exact .comma hgap hspace (hpq _ List.mem_cons_self head)
        (ih fun x hx => hpq x (List.mem_cons_of_mem _ hx))

theorem Enclosed.imp {p q : α → List Char → Prop} {close : Char} {xs : List α}
    {text : List Char} (h : Enclosed p close xs text)
    (hpq : ∀ x ∈ xs, ∀ {text}, p x text → q x text) : Enclosed q close xs text := by
  cases h with
  | empty hgap => exact .empty hgap
  | elements hspace head tail =>
      exact .elements hspace (hpq _ List.mem_cons_self head)
        (tail.imp fun x hx => hpq x (List.mem_cons_of_mem _ hx))

/-- What follows from having a text holds of every element that is written. -/
theorem Continued.forall {p : α → List Char → Prop} {q : α → Prop} {close : Char} {xs : List α}
    {text : List Char} (h : Continued p close xs text) (hpq : ∀ {x text}, p x text → q x) :
    ∀ x ∈ xs, q x := by
  induction h with
  | close _ => exact fun x hx => by cases hx
  | comma _ _ head _ ih => exact List.forall_mem_cons.2 ⟨hpq head, ih⟩

theorem Enclosed.forall {p : α → List Char → Prop} {q : α → Prop} {close : Char} {xs : List α}
    {text : List Char} (h : Enclosed p close xs text) (hpq : ∀ {x text}, p x text → q x) :
    ∀ x ∈ xs, q x := by
  cases h with
  | empty _ => exact fun x hx => by cases hx
  | elements _ head tail => exact List.forall_mem_cons.2 ⟨hpq head, tail.forall hpq⟩

section

variable {element : Scanner α} {spells : α → List Char → Prop} {close : Char}

/-- A scanner takes nothing but texts of what it finds, and the blanks in
front of them. -/
def Sound (element : Scanner α) (spells : α → List Char → Prop) : Prop :=
  ∀ {s x rest}, element s = some (x, rest) →
    ∃ gap text, AllBlank gap ∧ spells x text ∧ s = gap ++ (text ++ rest)

/-- What is taken for the elements behind the first are these as written, if
the scanner of elements takes nothing but texts. -/
theorem readRest_eq_some (hsound : Sound element spells) {fuel : Nat} {done xs : List α}
    {s : List Char} (h : readRest element close fuel done s = some (xs, rest)) :
    ∃ more text, xs = done.reverse ++ more ∧ s = text ++ rest ∧
      Continued spells close more text := by
  induction fuel generalizing done s with
  | zero => cases h
  | succ fuel ih =>
      -- the blanks in front belong to the text that was taken
      obtain ⟨gap, hgap, hs⟩ := skipBlanks_eq s
      unfold readRest at h
      split at h
      next => cases h
      next c s' hskip =>
        rw [hskip] at hs
        split at h
        next hclose =>
          cases h
          subst hclose
          exact ⟨[], gap ++ [c], by simp, by rw [hs]; simp, .close hgap⟩
        next hclose =>
        split at h
        next hcomma =>
          subst hcomma
          obtain ⟨⟨x, _⟩, hx, hdone⟩ := Option.bind_eq_some_iff.1 h
          obtain ⟨space, text, hspace, htext, rfl⟩ := hsound hx
          obtain ⟨more, text', rfl, rfl, hmore⟩ := ih hdone
          refine ⟨x :: more, _, by simp, ?_, .comma hgap hspace htext hmore⟩
          rw [hs]
          simp
        next => cases h

/-- What is taken for the elements between brackets are these as written,
with blanks wherever they may stand. The scanner of an element is a
parameter. -/
theorem readElements_eq_some (hsound : Sound element spells) {fuel : Nat} {xs : List α}
    {s : List Char} (h : readElements fuel element close s = some (xs, rest)) :
    ∃ text, s = text ++ rest ∧ Enclosed spells close xs text := by
  obtain ⟨gap, hgap, hs⟩ := skipBlanks_eq s
  unfold readElements at h
  split at h
  next => cases h
  next c s' hskip =>
    rw [hskip] at hs
    split at h
    next hclose =>
      cases h
      subst hclose
      -- the bracket closes at once
      exact ⟨gap ++ [c], by rw [hs]; simp, .empty hgap⟩
    next =>
      obtain ⟨⟨x, _⟩, hx, hdone⟩ := Option.bind_eq_some_iff.1 h
      obtain ⟨space, text, hspace, htext, hcons⟩ := hsound hx
      obtain ⟨more, text', rfl, rfl, hmore⟩ := readRest_eq_some hsound hdone
      -- blanks were skipped twice, before the element and by its own scanner
      have hblank : AllBlank (gap ++ space) :=
        fun d hd => (List.mem_append.1 hd).elim (hgap d) (hspace d)
      refine ⟨_, ?_, .elements hblank htext hmore⟩
      rw [hs, hcons]
      simp

end

/-- A scanner that reads a value off the front of any input that begins
with the text, blanks before it or not, if what comes next does not go on
with a numeral. -/
def Reads (scanner : Scanner α) (text : List Char) (x : α) : Prop :=
  ∀ gap rest, AllBlank gap → (∀ c ∈ rest.head?, Ender c) →
    scanner (gap ++ (text ++ rest)) = some (x, rest)

/-- What closes a list of elements. -/
structure Closes (close : Char) : Prop where
  solid : isBlank close = false
  comma : close ≠ ','
  ender : Ender close

section

variable {element : Scanner α} {spells : α → List Char → Prop} {close : Char} {fuel : Nat}

/-- What stands behind an element ends a numeral, so an element that is a
numeral is taken whole. -/
theorem continued_head {xs : List α} {text : List Char} (hclose : Closes close)
    (h : Continued spells close xs text) : ∀ c ∈ (text ++ rest).head?, Ender c := by
  have hblank : ∀ {gap more : List Char} {d : Char}, AllBlank gap → Ender d →
      ∀ c ∈ (gap ++ d :: more).head?, Ender c := by
    intro gap more d hgap hd c hc
    cases gap with
    | nil =>
        cases hc
        exact hd
    | cons b gap =>
        cases hc
        exact ender_of_blank (hgap _ List.mem_cons_self)
  cases h with
  | close hgap =>
      rw [List.append_assoc]
      exact hblank hgap hclose.ender
  | comma hgap _ _ _ =>
      rw [List.append_assoc]
      exact hblank hgap (by decide)

/-- The elements behind the first are read one by one. Two numbers bound the
reader, one for the rounds and one for the elements, and the length of the
text suffices for both. -/
theorem readRest_continued (hclose : Closes close)
    (hreads : ∀ {x text}, spells x text → text.length ≤ fuel → Reads element text x)
    {steps : Nat} {done xs : List α} {text : List Char} (h : Continued spells close xs text)
    (hfuel : text.length ≤ fuel) (hsteps : text.length ≤ steps) (rest : List Char) :
    readRest element close steps done (text ++ rest) = some (done.reverse ++ xs, rest) := by
  induction h generalizing steps done with
  | @close gap hgap =>
      rw [List.length_append, List.length_singleton] at hsteps
      obtain ⟨steps, rfl⟩ := Nat.exists_eq_add_of_le' ((Nat.le_add_left _ _).trans hsteps)
      rw [List.append_assoc, List.singleton_append, readRest, skipBlanks_append hgap hclose.solid]
      simp
  | @comma x xs gap space text more hgap hspace head tail ih =>
      simp only [List.length_append, List.length_cons] at hfuel hsteps
      -- an element and its comma use up a character each, so the steps suffice
      obtain ⟨steps, rfl⟩ := Nat.exists_eq_add_of_le' (show 1 ≤ steps by omega)
      have hx := hreads head (by omega) space (more ++ rest) hspace (continued_head hclose tail)
      have hmore : readRest element close steps (x :: done) (more ++ rest) =
          some ((x :: done).reverse ++ xs, rest) := ih (by omega) (by omega)
      rw [List.append_assoc, List.cons_append, readRest,
        skipBlanks_append hgap (show isBlank ',' = false from rfl)]
      dsimp only
      rw [if_neg hclose.comma.symm, if_pos rfl]
      simp only [List.append_assoc, hx, Option.bind_eq_bind, Option.bind_some]
      rw [hmore]
      simp

/-- The elements between brackets are read from any text of them, if every
element is read from any of its texts and none begins like the end. -/
theorem readElements_enclosed (hclose : Closes close)
    (hreads : ∀ {x text}, spells x text → text.length ≤ fuel → Reads element text x)
    (hstart : ∀ {x text}, spells x text →
      ∃ c more, text = c :: more ∧ isBlank c = false ∧ c ≠ close)
    {xs : List α} {text : List Char} (h : Enclosed spells close xs text)
    (hfuel : text.length ≤ fuel) (rest : List Char) :
    readElements fuel element close (text ++ rest) = some (xs, rest) := by
  unfold readElements
  cases h with
  | @empty gap hgap =>
      rw [List.append_assoc, List.singleton_append, skipBlanks_append hgap hclose.solid]
      exact if_pos rfl
  | @elements x xs space text more hspace head tail =>
      simp only [List.length_append] at hfuel
      obtain ⟨c, text', rfl, hsolid, hne⟩ := hstart head
      have hx := hreads head (by omega) [] (more ++ rest) allBlank_nil (continued_head hclose tail)
      have hmore : readRest element close fuel [x] (more ++ rest) =
          some ([x].reverse ++ xs, rest) :=
        readRest_continued hclose hreads tail (by omega) (by omega) rest
      rw [List.append_assoc, List.append_assoc, List.cons_append, skipBlanks_append hspace hsolid]
      dsimp only
      rw [if_neg hne]
      simp only [List.nil_append, List.cons_append] at hx
      simp only [hx, Option.bind_eq_bind, Option.bind_some]
      exact hmore

end

end Json

end TypedSelect
