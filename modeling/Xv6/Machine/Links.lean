import Mathlib.Data.List.Nodup
import Mathlib.Logic.Function.Basic

/-!
# Circular doubly linked lists

Nodes with a `next` and a `prev` pointer, in a circle through a head node. A node is taken out and put
in behind the head by writes to the pointers of its neighbours, one after another as a program does
them, and a loop along the pointers is a search in the list of nodes.
-/

namespace Machine

open List Function

variable {α β : Type*} {f : α → α} {a b c h v x : α} {xs ys p q : List α}

/-! ### Walks -/

/-- Following `f` from `a` visits `xs` and then comes to `b`. -/
def Walk (f : α → α) : α → List α → α → Prop
  | a, [], b => f a = b
  | a, x :: xs, b => f a = x ∧ Walk f x xs b

lemma walk_append : Walk f a (xs ++ x :: ys) b ↔ Walk f a xs x ∧ Walk f x ys b := by
  induction xs generalizing a with
  | nil => exact Iff.rfl
  | cons y xs ih =>
    simp only [cons_append, Walk, ih, and_assoc]

lemma Walk.first (hw : Walk f a xs b) : f a = xs.head?.getD b := by
  cases xs with
  | nil => exact hw
  | cons => exact hw.1

/-- A loop `for (x = start; x != stop; x = f x)` that ends with the first value that `t` gives; `none`
    if it has not ended after `n` rounds. -/
def scan [DecidableEq α] (f : α → α) (stop : α) (t : α → Option β) : Nat → α → Option (Option β)
  | 0, _ => none
  | n + 1, x =>
    if x = stop then some none
    else
      match t x with
      | some y => some (some y)
      | none => scan f stop t n (f x)

lemma Walk.scan [DecidableEq α] {t : α → Option β} {n : Nat} (hw : Walk f a xs b) (hb : b ∉ xs)
    (hn : xs.length < n) : scan f b t n (f a) = some (xs.findSome? t) := by
  induction xs generalizing a n with
  | nil =>
    obtain ⟨n, rfl⟩ := Nat.exists_eq_add_of_lt hn
    rw [Walk] at hw
    simp [Machine.scan, hw]
  | cons x xs ih =>
    obtain ⟨n, rfl⟩ : ∃ m, n = m + 1 := Nat.exists_eq_succ_of_ne_zero (Nat.ne_zero_of_lt hn)
    obtain ⟨rfl, hw⟩ := hw
    have hne : f a ≠ b := fun h => hb (h ▸ mem_cons_self)
    rw [Machine.scan, if_neg hne, List.findSome?_cons]
    cases t (f a) with
    | some => rfl
    | none => exact ih hw (fun h => hb (mem_cons_of_mem _ h)) (Nat.lt_of_succ_lt_succ hn)

lemma getLastD_mem (a : α) (xs : List α) : xs.getLastD a ∈ a :: xs := by
  cases xs with
  | nil => exact mem_cons_self
  | cons x xs =>
    rw [getLastD_cons, ← getLast_eq_getLastD (by exact cons_ne_nil x xs)]
    exact mem_cons_of_mem _ (getLast_mem _)

/-- A walk depends on the pointers it follows only. -/
lemma Walk.congr {g : α → α} (hw : Walk f a xs b) (h : ∀ y ∈ a :: xs, g y = f y) : Walk g a xs b := by
  induction xs generalizing a with
  | nil => exact (h a mem_cons_self).trans hw
  | cons x xs ih =>
    exact ⟨(h a mem_cons_self).trans hw.1, ih hw.2 fun y hy => h y (mem_cons_of_mem a hy)⟩

/-- A walk from another place that goes on in the same way. -/
lemma Walk.from {g : α → α} (hw : Walk f a xs b) (hc : g c = f a) (h : ∀ y ∈ xs, g y = f y) :
    Walk g c xs b := by
  cases xs with
  | nil => exact hc.trans hw
  | cons => exact ⟨hc.trans hw.1, hw.2.congr h⟩

lemma Walk.last (hw : Walk f a xs b) : f (xs.getLastD a) = b := by
  induction xs generalizing a with
  | nil => exact hw
  | cons x xs ih =>
    rw [getLastD_cons]
    exact ih hw.2

/-- Every other step goes on to a later place of the walk. -/
lemma Walk.step {R : α → α → Prop} {y : α} (hw : Walk f a xs b) (hR : (a :: xs).Pairwise R)
    (hy : y ∈ a :: xs) (hlast : y ≠ xs.getLastD a) : f y ∈ xs ∧ R y (f y) := by
  induction xs generalizing a with
  | nil => exact absurd (mem_singleton.mp hy) hlast
  | cons x xs ih =>
    rcases mem_cons.mp hy with rfl | hy
    · rw [hw.1]
      exact ⟨mem_cons_self, rel_of_pairwise_cons hR mem_cons_self⟩
    · rw [getLastD_cons] at hlast
      obtain ⟨hmem, hrel⟩ := ih hw.2 hR.of_cons hy hlast
      exact ⟨mem_cons_of_mem x hmem, hrel⟩

/-- A circle can be walked from each of its places. -/
lemma Walk.rotate {y : α} (hw : Walk f a xs a) (hy : y ∈ a :: xs) :
    ∃ ys, Walk f y ys y ∧ (y :: ys).Perm (a :: xs) := by
  rcases mem_cons.mp hy with rfl | hy
  · exact ⟨xs, hw, List.Perm.refl _⟩
  · obtain ⟨l, r, rfl⟩ := append_of_mem hy
    obtain ⟨hl, hr⟩ := walk_append.mp hw
    refine ⟨r ++ a :: l, walk_append.mpr ⟨hr, hl⟩, ?_⟩
    rw [← cons_append, ← cons_append]
    exact perm_append_comm

/-- In a circle, each place is reached from each other one before it is met again. -/
lemma Walk.reach {y z : α} (hw : Walk f a xs a) (hnd : (a :: xs).Nodup) (hy : y ∈ a :: xs)
    (hz : z ∈ a :: xs) (hne : y ≠ z) :
    ∃ l, Walk f y l z ∧ z ∉ y :: l ∧ (∀ v ∈ y :: l, v ∈ a :: xs) ∧ l.length < xs.length := by
  obtain ⟨ys, hys, hperm⟩ := hw.rotate hy
  have hzy : z ∈ ys := (mem_cons.mp (hperm.mem_iff.mpr hz)).resolve_left hne.symm
  obtain ⟨l, r, rfl⟩ := append_of_mem hzy
  have hnd' : (y :: (l ++ z :: r)).Nodup := hperm.nodup_iff.mpr hnd
  refine ⟨l, (walk_append.mp hys).1, ?_, ?_, ?_⟩
  · rw [← cons_append] at hnd'
    exact fun hmem => (nodup_append'.mp hnd').2.2 hmem mem_cons_self
  · intro v hv
    refine hperm.mem_iff.mp ?_
    rw [← cons_append]
    exact mem_append_left _ hv
  · have hlen := hperm.length_eq
    simp only [length_cons, length_append] at hlen
    omega

section Update

variable [DecidableEq α]

/-- A pointer that the walk does not follow may change. -/
lemma Walk.update (hw : Walk f a xs b) (hc : c ∉ a :: xs) (v : α) :
    Walk (update f c v) a xs b := by
  have hne : a ≠ c := by
    rintro rfl
    exact hc mem_cons_self
  induction xs generalizing a with
  | nil =>
    rw [Walk, update_of_ne hne]
    exact hw
  | cons x xs ih =>
    have hc' : c ∉ x :: xs := fun h => hc (mem_cons_of_mem _ h)
    refine ⟨?_, ih hw.2 hc' ?_⟩
    · rw [update_of_ne hne]
      exact hw.1
    · rintro rfl
      exact hc' mem_cons_self

/-- The walk with its last pointer changed. -/
lemma Walk.redirect (hw : Walk f a xs b) (hnd : (a :: xs).Nodup) (c : α) :
    Walk (Function.update f (xs.getLastD a) c) a xs c := by
  induction xs generalizing a with
  | nil => exact update_self ..
  | cons x xs ih =>
    obtain ⟨hax, hnd⟩ := nodup_cons.mp hnd
    have hne : a ≠ xs.getLastD x := by
      rintro heq
      rw [heq] at hax
      exact hax (getLastD_mem x xs)
    rw [getLastD_cons]
    refine ⟨?_, ih hw.2 hnd⟩
    rw [update_of_ne hne]
    exact hw.1

/-- The walk with one node left out. -/
lemma Walk.skip (hw : Walk f a (p ++ x :: q) b) (hnd : (a :: (p ++ x :: q)).Nodup) :
    Walk (Function.update f (p.getLastD a) (f x)) a (p ++ q) b := by
  rw [← cons_append] at hnd
  obtain ⟨hp, hq, hdisj⟩ := nodup_append'.mp hnd
  obtain ⟨hwp, hwq⟩ := walk_append.mp hw
  have hlast : p.getLastD a ∉ x :: q := fun h => hdisj (getLastD_mem a p) h
  cases q with
  | nil =>
    rw [append_nil, show f x = b from hwq]
    exact hwp.redirect hp b
  | cons =>
    obtain ⟨rfl, hwq⟩ := hwq
    exact walk_append.mpr ⟨hwp.redirect hp _, hwq.update (fun h => hlast (mem_cons_of_mem _ h)) _⟩

end Update

/-! ### The circle -/

structure Links (α : Type*) where
  next : α → α
  prev : α → α

namespace Links

/-- The nodes `xs` and the head `h`, in a circle in both directions. -/
structure Circle (k : Links α) (h : α) (xs : List α) : Prop where
  next : Walk k.next h xs h
  prev : Walk k.prev h xs.reverse h
  nodup : (h :: xs).Nodup

variable {k : Links α}

lemma Circle.flip (hk : k.Circle h xs) : Circle ⟨k.prev, k.next⟩ h xs.reverse where
  next := hk.prev
  prev := by
    rw [reverse_reverse]
    exact hk.next
  nodup := by
    rw [nodup_cons, mem_reverse, nodup_reverse]
    exact nodup_cons.mp hk.nodup

lemma Circle.prev_eq (hk : k.Circle h (p ++ x :: q)) : k.prev x = p.getLastD h := by
  have hw := hk.prev
  rw [reverse_append, reverse_cons, append_assoc, singleton_append, walk_append] at hw
  rw [hw.2.first, List.head?_reverse, getLastD_eq_getLast?]

lemma Circle.next_eq (hk : k.Circle h (p ++ x :: q)) : k.next x = q.reverse.getLastD h := by
  have hflip := hk.flip
  rw [reverse_append, reverse_cons, append_assoc, singleton_append] at hflip
  exact hflip.prev_eq

section Update

variable [DecidableEq α]

/-- `x->next->prev = x->prev; x->prev->next = x->next` -/
def unlink (k : Links α) (x : α) : Links α :=
  let k : Links α := { k with prev := Function.update k.prev (k.next x) (k.prev x) }
  { k with next := Function.update k.next (k.prev x) (k.next x) }

/-- `x->next = h->next; x->prev = h; h->next->prev = x; h->next = x` -/
def linkAfter (k : Links α) (h x : α) : Links α :=
  let k : Links α := { k with next := Function.update k.next x (k.next h) }
  let k : Links α := { k with prev := Function.update k.prev x h }
  let k : Links α := { k with prev := Function.update k.prev (k.next h) x }
  { k with next := Function.update k.next h x }

lemma Circle.unlink (hk : k.Circle h (p ++ x :: q)) : (k.unlink x).Circle h (p ++ q) := by
  have hnd := hk.nodup
  have hne : x ≠ q.reverse.getLastD h := by
    intro heq
    have hmem := getLastD_mem h q.reverse
    rw [← heq, mem_cons, mem_reverse] at hmem
    simp only [nodup_cons, mem_append, mem_cons, nodup_append] at hnd
    rcases hmem with rfl | hmem
    · exact hnd.1 (.inr (.inl rfl))
    · exact hnd.2.2.1.1 hmem
  have heq : k.unlink x = ⟨update k.next (k.prev x) (k.next x),
      update k.prev (k.next x) (k.prev x)⟩ := by
    rw [Links.unlink, hk.next_eq]
    dsimp only
    rw [update_of_ne hne]
  have hflip := hk.flip
  rw [reverse_append, reverse_cons, append_assoc, singleton_append] at hflip
  rw [heq]
  refine ⟨?_, ?_, ?_⟩
  · rw [hk.prev_eq]
    exact hk.next.skip hnd
  · rw [hk.next_eq, reverse_append]
    exact hflip.next.skip hflip.nodup
  · refine hnd.sublist (List.Sublist.cons_cons _ (List.Sublist.append_left ?_ p))
    exact sublist_cons_self x q

lemma Circle.linkAfter (hk : k.Circle h xs) (hx : x ∉ h :: xs) : (k.linkAfter h x).Circle h (x :: xs) := by
  obtain ⟨hxh, hxs⟩ := ne_and_not_mem_of_not_mem_cons hx
  have hnd := hk.nodup
  have hh : h ∉ xs := (nodup_cons.mp hnd).1
  have heq : k.linkAfter h x = ⟨update (update k.next x (k.next h)) h x,
      update (update k.prev x h) (k.next h) x⟩ := by
    simp only [Links.linkAfter, update_of_ne (Ne.symm hxh)]
  have hnext : k.next h = xs.reverse.getLastD h := by
    rw [hk.next.first, getLastD_eq_getLast?, List.getLast?_reverse]
  rw [heq]
  refine ⟨⟨update_self .., ?_⟩, ?_, nodup_cons.mpr ⟨?_, ?_⟩⟩
  · -- the walk of the old circle, begun at `x` in the place of `h`
    have hw := hk.next
    cases xs with
    | nil =>
      simp only [Walk]
      rw [update_of_ne hxh, update_self]
      exact hw
    | cons =>
      refine ⟨?_, (hw.2.update hxs _).update hh _⟩
      dsimp only
      rw [update_of_ne hxh, update_self]
      exact hw.1
  · rw [reverse_cons, walk_append, hnext]
    have hx' : x ∉ h :: xs.reverse := by
      rwa [mem_cons, mem_reverse, ← mem_cons]
    refine ⟨(hk.prev.update hx' h).redirect hk.flip.nodup x, ?_⟩
    have hlast : x ≠ xs.reverse.getLastD h := fun he => hx' (he ▸ getLastD_mem h xs.reverse)
    simp only [Walk]
    rw [update_of_ne hlast, update_self]
  · rw [mem_cons]
    rintro (rfl | hmem)
    · exact hxh rfl
    · exact hh hmem
  · exact nodup_cons.mpr ⟨hxs, (nodup_cons.mp hnd).2⟩

end Update

end Links

end Machine
