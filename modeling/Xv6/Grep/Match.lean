import Mathlib.Computability.Language
import Xv6.Machine.Bytes

/-!
# Regular expressions of `grep`

The matcher of `grep.c`. A pattern is read as a sequence of elements, each a character that may be repeated,
and it may end in a `$`. The matcher looks for a part of the text that is in the language of the sequence.
-/

namespace Xv6.Grep

open Machine List
open scoped Computability

/-- The characters with a meaning. -/
def caret : Byte := chr '^'
def dot : Byte := chr '.'
def star : Byte := chr '*'
def dollar : Byte := chr '$'

/-! ### The matcher -/

/-- The character `b` of the text is matched by `c`. -/
def accepts (c b : Byte) : Bool := c == dot || c == b

/-- `matchstar`, where `here` is `matchhere` for the rest of the pattern. -/
def matchstar (c : Byte) (here : List Byte → Bool) : List Byte → Bool
  | [] => here []
  | t :: ts => here (t :: ts) || (accepts c t && matchstar c here ts)

/-- One character, and then the rest of the pattern. -/
def matchone (c : Byte) (here : List Byte → Bool) : List Byte → Bool
  | [] => false
  | t :: ts => accepts c t && here ts

def matchhere : List Byte → List Byte → Bool
  | [], _ => true
  | [c], text => if c = dollar then text.isEmpty else matchone c (fun _ => true) text
  | c :: d :: re, text =>
    if d = star then matchstar c (matchhere re) text else matchone c (matchhere (d :: re)) text

/-- The loop of `match`. -/
def matchfrom (re : List Byte) : List Byte → Bool
  | [] => matchhere re []
  | t :: ts => matchhere re (t :: ts) || matchfrom re ts

def match' (re text : List Byte) : Bool :=
  if re.head? = some caret then matchhere re.tail text else matchfrom re text

/-! ### Patterns -/

/-- A character, or any number of them. -/
inductive Elem
  | one (c : Byte)
  | many (c : Byte)

/-- The pattern is the sequence of elements, with `$` at its end or not. -/
inductive Reads : List Byte → List Elem → Bool → Prop
  | nil : Reads [] [] false
  | dollar : Reads [dollar] [] true
  | one {c : Byte} {re : List Byte} {es : List Elem} {e : Bool} (hstar : re.head? ≠ some star)
      (hend : ¬ (c = Grep.dollar ∧ re = [])) : Reads re es e → Reads (c :: re) (.one c :: es) e
  | many {c : Byte} {re : List Byte} {es : List Elem} {e : Bool} :
      Reads re es e → Reads (c :: star :: re) (.many c :: es) e

/-- The texts of one character that `c` accepts. -/
def chars (c : Byte) : Language Byte := {w | ∃ b, w = [b] ∧ (c = dot ∨ c = b)}

def Elem.lang : Elem → Language Byte
  | .one c => chars c
  | .many c => (chars c)∗

/-- The texts that a sequence of elements stands for. -/
def lang (es : List Elem) : Language Byte := (es.map Elem.lang).prod

@[simp] lemma lang_nil : lang [] = 1 := rfl

@[simp] lemma lang_cons (x : Elem) (es : List Elem) : lang (x :: es) = x.lang * lang es := prod_cons

variable {re text : List Byte} {es es' : List Elem} {e e' : Bool} {c : Byte}

/-- Every pattern can be read. -/
lemma exists_reads : ∀ re : List Byte, ∃ es e, Reads re es e
  | [] => ⟨[], false, .nil⟩
  | [c] => by
    by_cases hc : c = dollar
    · subst hc
      exact ⟨[], true, .dollar⟩
    · exact ⟨[.one c], false, .one (by simp) (fun h => hc h.1) .nil⟩
  | c :: d :: re => by
    by_cases hd : d = star
    · subst hd
      obtain ⟨es, e, h⟩ := exists_reads re
      exact ⟨.many c :: es, e, .many h⟩
    · obtain ⟨es, e, h⟩ := exists_reads (d :: re)
      exact ⟨.one c :: es, e, .one (by simpa using hd) (by simp) h⟩

/-- There is one way to read it. -/
lemma Reads.unique (h : Reads re es e) (h' : Reads re es' e') : es' = es ∧ e' = e := by
  induction h generalizing es' e' with
  | nil =>
    cases h'
    exact ⟨rfl, rfl⟩
  | dollar =>
    cases h' with
    | dollar => exact ⟨rfl, rfl⟩
    | one _ hend => exact absurd ⟨rfl, rfl⟩ hend
  | one hstar hend _ ih =>
    cases h' with
    | dollar => exact absurd ⟨rfl, rfl⟩ hend
    | one _ _ h' =>
      obtain ⟨rfl, rfl⟩ := ih h'
      exact ⟨rfl, rfl⟩
    | many => exact absurd rfl hstar
  | many _ ih =>
    cases h' with
    | one hstar => exact absurd rfl hstar
    | many h' =>
      obtain ⟨rfl, rfl⟩ := ih h'
      exact ⟨rfl, rfl⟩

/-! ### Matching -/

lemma accepts_iff {b : Byte} : accepts c b = true ↔ c = dot ∨ c = b := by
  simp [accepts]

/-- A repeated character stands for the texts all of whose characters it accepts. -/
lemma mem_kstar_chars {w : List Byte} : w ∈ (chars c)∗ ↔ ∀ b ∈ w, accepts c b = true := by
  constructor
  · rw [Language.mem_kstar]
    rintro ⟨ws, rfl, hws⟩ b hb
    obtain ⟨w, hw, hb⟩ := mem_flatten.mp hb
    obtain ⟨b', rfl, hb'⟩ := hws w hw
    rw [mem_singleton.mp hb]
    exact accepts_iff.mpr hb'
  · intro h
    have hflat : w = (w.map fun b => [b]).flatten := by
      rw [← flatMap_def, flatMap_singleton']
    rw [hflat]
    apply Language.join_mem_kstar
    intro x hx
    obtain ⟨b, hb, rfl⟩ := mem_map.mp hx
    exact ⟨b, rfl, accepts_iff.mp (h b hb)⟩

/-- `matchstar` splits off any number of characters. -/
lemma matchstar_iff {here : List Byte → Bool} :
    matchstar c here text = true ↔ ∃ u v, text = u ++ v ∧ u ∈ (chars c)∗ ∧ here v = true := by
  induction text with
  | nil =>
    rw [matchstar]
    constructor
    · intro h
      exact ⟨[], [], rfl, Language.nil_mem_kstar _, h⟩
    · rintro ⟨u, v, huv, -, hv⟩
      obtain ⟨rfl, rfl⟩ := append_eq_nil_iff.mp huv.symm
      exact hv
  | cons t ts ih =>
    rw [matchstar, Bool.or_eq_true, Bool.and_eq_true, ih]
    constructor
    · rintro (h | ⟨ht, u, v, rfl, hu, hv⟩)
      · exact ⟨[], t :: ts, rfl, Language.nil_mem_kstar _, h⟩
      · refine ⟨t :: u, v, rfl, ?_, hv⟩
        rw [mem_kstar_chars] at hu ⊢
        exact forall_mem_cons.mpr ⟨ht, hu⟩
    · rintro ⟨u, v, huv, hu, hv⟩
      cases u with
      | nil =>
        rw [nil_append] at huv
        subst huv
        exact .inl hv
      | cons b u =>
        obtain ⟨rfl, rfl⟩ := List.cons.inj huv
        rw [mem_kstar_chars, forall_mem_cons] at hu
        exact .inr ⟨hu.1, u, v, rfl, mem_kstar_chars.mpr hu.2, hv⟩

lemma matchone_iff {here : List Byte → Bool} :
    matchone c here text = true ↔ ∃ u v, text = u ++ v ∧ u ∈ chars c ∧ here v = true := by
  cases text with
  | nil =>
    simp only [matchone, Bool.false_eq_true, false_iff]
    rintro ⟨u, v, huv, ⟨b, rfl, -⟩, -⟩
    cases huv
  | cons t ts =>
    rw [matchone, Bool.and_eq_true, accepts_iff]
    constructor
    · rintro ⟨ht, h⟩
      exact ⟨[t], ts, rfl, ⟨t, rfl, ht⟩, h⟩
    · rintro ⟨u, v, huv, ⟨b, rfl, hb⟩, hv⟩
      obtain ⟨rfl, rfl⟩ := List.cons.inj huv
      exact ⟨hb, hv⟩

lemma matchhere_one (hstar : re.head? ≠ some star) (hend : ¬ (c = dollar ∧ re = [])) :
    matchhere (c :: re) text = matchone c (matchhere re) text := by
  cases re with
  | nil =>
    have hempty : matchhere [] = fun _ => true := funext fun _ => rfl
    rw [matchhere, if_neg (fun hc => hend ⟨hc, rfl⟩), hempty]
  | cons => rw [matchhere, if_neg (fun hd => hstar (congrArg some hd))]

lemma matchhere_many : matchhere (c :: star :: re) text = matchstar c (matchhere re) text := by
  rw [matchhere, if_pos rfl]

/-- The text starts with a part in `L`, which is the whole text if `e` is set. -/
def Starts (L : Language Byte) (e : Bool) (text : List Byte) : Prop :=
  ∃ u v, text = u ++ v ∧ u ∈ L ∧ (e = true → v = [])

lemma starts_mul {K L : Language Byte} :
    Starts (K * L) e text ↔ ∃ u v, text = u ++ v ∧ u ∈ K ∧ Starts L e v := by
  constructor
  · rintro ⟨_, v, rfl, hu, hv⟩
    obtain ⟨a, ha, b, hb, rfl⟩ := Language.mem_mul.mp hu
    exact ⟨a, b ++ v, append_assoc .., ha, b, v, rfl, hb, hv⟩
  · rintro ⟨a, _, rfl, ha, b, v, rfl, hb, hv⟩
    exact ⟨a ++ b, v, (append_assoc ..).symm, Language.append_mem_mul ha hb, hv⟩

/-- `matchhere` follows the elements of the pattern. -/
lemma Reads.matchhere_iff (h : Reads re es e) : matchhere re text = true ↔ Starts (lang es) e text := by
  induction h generalizing text with
  | nil =>
    simp only [matchhere, true_iff]
    exact ⟨[], text, rfl, rfl, fun hf => by cases hf⟩
  | dollar =>
    rw [matchhere, if_pos rfl, List.isEmpty_iff]
    constructor
    · rintro rfl
      exact ⟨[], [], rfl, rfl, fun _ => rfl⟩
    · rintro ⟨u, v, rfl, hu, hv⟩
      rw [(Language.mem_one u).mp hu, hv rfl]
      rfl
  | one hstar hend _ ih =>
    simp only [matchhere_one hstar hend, matchone_iff, lang_cons, starts_mul, ih]
    rfl
  | many _ ih =>
    simp only [matchhere_many, matchstar_iff, lang_cons, starts_mul, ih]
    rfl

/-- The loop of `match` tries every rest of the text. -/
lemma matchfrom_iff : matchfrom re text = true ↔ ∃ w v, text = w ++ v ∧ matchhere re v = true := by
  induction text with
  | nil =>
    rw [matchfrom]
    constructor
    · intro h
      exact ⟨[], [], rfl, h⟩
    · rintro ⟨w, v, hwv, hv⟩
      obtain ⟨rfl, rfl⟩ := append_eq_nil_iff.mp hwv.symm
      exact hv
  | cons t ts ih =>
    rw [matchfrom, Bool.or_eq_true, ih]
    constructor
    · rintro (h | ⟨w, v, rfl, hv⟩)
      · exact ⟨[], t :: ts, rfl, h⟩
      · exact ⟨t :: w, v, rfl, hv⟩
    · rintro ⟨w, v, hwv, hv⟩
      cases w with
      | nil =>
        rw [nil_append] at hwv
        subst hwv
        exact .inl hv
      | cons b w =>
        obtain ⟨rfl, rfl⟩ := List.cons.inj hwv
        exact .inr ⟨w, v, rfl, hv⟩

/-- The pattern without a `^` at its start. -/
def body (re : List Byte) : List Byte := if re.head? = some caret then re.tail else re

/-- A pattern, after a `^` at its start, has one reading as a sequence of elements. `match` returns 1 just if a
    part of the text is in the language of the sequence, where the part has to be at the start of the text
    after `^` and at its end before `$`. -/
theorem match_correct (re text : List Byte) :
    ∃ es e, Reads (body re) es e ∧ (∀ es' e', Reads (body re) es' e' → es' = es ∧ e' = e) ∧
      (match' re text = true ↔ ∃ w u v, text = w ++ (u ++ v) ∧ u ∈ lang es ∧
        (re.head? = some caret → w = []) ∧ (e = true → v = [])) := by
  obtain ⟨es, e, h⟩ := exists_reads (body re)
  refine ⟨es, e, h, fun es' e' h' => h.unique h', ?_⟩
  rw [match']
  rw [body] at h
  split_ifs at h ⊢ with hcaret
  · rw [h.matchhere_iff]
    constructor
    · rintro ⟨u, v, rfl, hu, hv⟩
      exact ⟨[], u, v, rfl, hu, fun _ => rfl, hv⟩
    · rintro ⟨w, u, v, rfl, hu, hw, hv⟩
      rw [hw hcaret]
      exact ⟨u, v, rfl, hu, hv⟩
  · rw [matchfrom_iff]
    constructor
    · rintro ⟨w, v, rfl, hv⟩
      obtain ⟨u, v, rfl, hu, hv⟩ := h.matchhere_iff.mp hv
      exact ⟨w, u, v, rfl, hu, fun hc => absurd hc hcaret, hv⟩
    · rintro ⟨w, u, v, rfl, hu, -, hv⟩
      exact ⟨w, u ++ v, rfl, h.matchhere_iff.mpr ⟨u, v, rfl, hu, hv⟩⟩

end Xv6.Grep
