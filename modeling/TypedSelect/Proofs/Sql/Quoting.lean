/-
String constants off the front of a text.

A string constant has no length before it, so where it ends must be seen
from its text: at the first quote that no other one follows. The quotes of
the content come in pairs, so what carries everything here is that reading
is exact: a constant is read off a text just where the text begins with
the quoted content and no quote comes behind it. Quoted texts are then
told apart by their content, and one that goes on behind what would do as
a constant goes on with a quote.

# Quoting and substitution

A quote in the content gives way to two of them, everything else stays,
and the whole stands between two quotes. The first is said as a
substitution over the content, which does not look at where it is: so
there is no content that is quoted in another way than character by
character.

# What it is for

The main result takes a content and any text behind it. It is about all
contents, those with quotes, comments and ends of statements in them among
them, and says that nothing of the content can be taken for something
outside of the constant.
-/
import TypedSelect.Proofs.Sql.Scan
import TypedSelect.Proofs.Substitution

namespace TypedSelect

open Scan (takeString takeString_doubleQuotes)

-- ============================================================= quoting

/-- Doubling is substitution: every quote gives way to two of them. The
recursion of the renderer and the general one go character by character. -/
theorem doubleQuotes_eq_substitute (content : List Char) :
    doubleQuotes content = substitute '\'' [] ['\'', '\''] content := by
  induction content with
  | nil => rw [doubleQuotes, substitute_nil]
  | cons c content ih =>
      rw [doubleQuotes, ih]
      split
      next hc =>
        have hquote : substitute '\'' [] ['\'', '\''] ('\'' :: content) =
          '\'' :: '\'' :: substitute '\'' [] ['\'', '\''] content := substitute_pattern content
        rw [hc, hquote]
      next hc => rw [substitute_cons_of_ne hc]

-- ============================================================= reading

/-- A string constant off the front of a text: its content, and the text
behind it. -/
def readString? (text : String) : Option (String × String) :=
  match text.toList with
  | '\'' :: inside =>
    (takeString inside).map fun (content, rest) => (String.ofList content, String.ofList rest)
  | _ => none

/-- What is read behind an opening quote is doubled quotes and all, up to a
quote that no other one follows. By induction on the text: a quote is looked
at together with the character behind it. -/
theorem takeString_eq_some_iff {inside content rest : List Char} :
    takeString inside = some (content, rest) ↔
      inside = doubleQuotes content ++ '\'' :: rest ∧ rest.head? ≠ some '\'' := by
  constructor
  · intro h
    -- at the end of the text, at two quotes, at one, and at any other character
    fun_induction takeString inside generalizing content with
    | case1 => cases h
    | case2 inside ih =>
        obtain ⟨⟨content', rest'⟩, hinside, heq⟩ := Option.map_eq_some_iff.1 h
        cases heq
        obtain ⟨rfl, hrest⟩ := ih hinside
        rw [doubleQuotes, if_pos rfl]
        exact ⟨rfl, hrest⟩
    | case3 inside hnext =>
        cases h
        refine ⟨rfl, fun hhead => ?_⟩
        obtain ⟨behind, rfl⟩ := List.head?_eq_some_iff.1 hhead
        exact hnext behind rfl
    | case4 c inside hpair hquote ih =>
        obtain ⟨⟨content', rest'⟩, hinside, heq⟩ := Option.map_eq_some_iff.1 h
        cases heq
        obtain ⟨rfl, hrest⟩ := ih hinside
        rw [doubleQuotes, if_neg hquote]
        exact ⟨rfl, hrest⟩
  · rintro ⟨rfl, hrest⟩
    exact takeString_doubleQuotes content fun d hd heq => hrest (heq ▸ hd)

/-- A quoted text is its content with quotes doubled, between two quotes. -/
theorem toList_quote (content : String) :
    (quote content).toList = '\'' :: (doubleQuotes content.toList ++ ['\'']) := by
  rw [quote, String.toList_ofList]
  rfl

/-- A constant is read off a text just where the text begins with the
quoted content and no quote follows. -/
theorem readString?_eq_some_iff {text content rest : String} :
    readString? text = some (content, rest) ↔
      text = quote content ++ rest ∧ rest.toList.head? ≠ some '\'' := by
  unfold readString?
  constructor
  · intro h
    split at h
    next inside htext =>
      obtain ⟨⟨content', rest'⟩, hinside, heq⟩ := Option.map_eq_some_iff.1 h
      cases heq
      obtain ⟨rfl, hrest⟩ := takeString_eq_some_iff.1 hinside
      refine ⟨?_, by rwa [String.toList_ofList]⟩
      rw [← String.toList_inj, htext, String.toList_append, toList_quote, String.toList_ofList,
        String.toList_ofList]
      simp
    next => cases h
  · rintro ⟨rfl, hrest⟩
    have htext : (quote content ++ rest).toList =
        '\'' :: (doubleQuotes content.toList ++ '\'' :: rest.toList) := by
      rw [String.toList_append, toList_quote]
      simp
    have htake : takeString (doubleQuotes content.toList ++ '\'' :: rest.toList) =
      some (content.toList, rest.toList) := takeString_eq_some_iff.2 ⟨rfl, hrest⟩
    simp only [htext, htake, Option.map_some, String.ofList_toList]

/-- A quoted text by itself is read back whole. -/
theorem readString?_quote (content : String) : readString? (quote content) = some (content, "") :=
  readString?_eq_some_iff.2 ⟨(String.append_empty).symm, nofun⟩

/-- Quoted texts are told apart by their content. -/
theorem quote_injective : Function.Injective quote := by
  intro s t h
  have hread := readString?_quote s
  rw [h, readString?_quote] at hread
  cases hread
  rfl

/-- Where a first part of a quoted text would do as a constant, a quote
comes next: nothing in the content ends the constant early. -/
theorem quote_goes_on {s content before after : String} (h : quote s = before ++ after)
    (hafter : after ≠ "") (hbefore : readString? before = some (content, "")) :
    after.toList.head? = some '\'' := by
  by_contra hhead
  -- then a constant comes off the front of `quote s` with `after` left behind it
  obtain ⟨rfl, -⟩ := readString?_eq_some_iff.1 hbefore
  rw [String.append_empty] at h
  have hread := readString?_quote s
  rw [h, readString?_eq_some_iff.2 ⟨rfl, hhead⟩] at hread
  cases hread
  exact hafter rfl

/-- A quoted text is read back off the front of any text that it is put
before, if that does not begin with a quote: exactly its content is read
and exactly the rest is left. So the quoted text and the rest are the only
ones to make up the whole, no two contents are quoted alike, and no part of
the content ends the constant early. -/
theorem quote_is_prefix_decodable (s r : String) (hr : r.toList.head? ≠ some '\'') :
    quote s = "'" ++ String.ofList (substitute '\'' [] ['\'', '\''] s.toList) ++ "'" ∧
      readString? (quote s ++ r) = some (s, r) ∧
      (∀ s' r' : String, r'.toList.head? ≠ some '\'' → quote s' ++ r' = quote s ++ r →
        s' = s ∧ r' = r) ∧
      Function.Injective quote ∧
      ∀ content before after : String, quote s = before ++ after → after ≠ "" →
        readString? before = some (content, "") → after.toList.head? = some '\'' := by
  have hread : readString? (quote s ++ r) = some (s, r) := readString?_eq_some_iff.2 ⟨rfl, hr⟩
  refine ⟨?_, hread, fun s' r' hr' heq => ?_, quote_injective, fun _ _ _ => quote_goes_on⟩
  · rw [← doubleQuotes_eq_substitute, ← String.toList_inj, toList_quote]
    simp
  · rw [← heq, readString?_eq_some_iff.2 ⟨rfl, hr'⟩] at hread
    cases hread
    exact ⟨rfl, rfl⟩

/-- A content that begins with a quote and tries to end the statement. -/
theorem dropped_table_is_read_back :
    " AND b".toList.head? ≠ some '\'' ∧
      readString? "'''; DROP TABLE x; --' AND b" = some ("'; DROP TABLE x; --", " AND b") :=
  ⟨by decide, (quote_is_prefix_decodable "'; DROP TABLE x; --" " AND b" (by decide)).2.1⟩

end TypedSelect
