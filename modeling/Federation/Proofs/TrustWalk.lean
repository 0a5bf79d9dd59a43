import Mathlib.Data.List.Chain
import Mathlib.Data.List.Nodup

/-!
# Walks and routes

A walk follows edges and may come back to where it was; only its ends and the number of its edges
are of interest. A trail is the list of the places on a walk, and a route is one that visits none of
them twice. A cycle is a route with an edge back to its start.
-/

namespace Federation

universe u v

variable {α : Type u} {β : Type v}

/-- A directed walk of so many edges leads from a source to another place. -/
inductive Hops (R : α → α → Prop) (source : α) : Nat → α → Prop where
  | stay : Hops R source 0 source
  | step {n : Nat} {a b : α} : Hops R source n a → R a b → Hops R source (n + 1) b

theorem Hops.map {R : α → α → Prop} {S : β → β → Prop} {f : α → β}
    (hf : ∀ a b, R a b → S (f a) (f b)) {n : Nat} {a b : α} (h : Hops R a n b) :
    Hops S (f a) n (f b) := by
  induction h with
  | stay => exact .stay
  | step _ edge ih => exact .step ih (hf _ _ edge)

/-- A walk that leads away has a first and a last edge. -/
theorem Hops.eq_or_ends {R : α → α → Prop} {source target : α} {n : Nat}
    (h : Hops R source n target) :
    source = target ∨ (∃ a, R source a) ∧ ∃ b, R b target := by
  induction h with
  | stay => exact Or.inl rfl
  | step _ edge ih =>
    rcases ih with rfl | ⟨first, _⟩
    · exact Or.inr ⟨⟨_, edge⟩, _, edge⟩
    · exact Or.inr ⟨first, _, edge⟩

/-- The places from one to another, each step along an edge; a place may come up twice. -/
structure Trail (R : α → α → Prop) (source target : α) (places : List α) : Prop where
  head : places.head? = some source
  last : places.getLast? = some target
  chain : places.IsChain R

namespace Trail

variable {R : α → α → Prop} {source target : α} {places : List α}

theorem ne_nil (h : Trail R source target places) : places ≠ [] := by
  rintro rfl
  cases h.head

theorem map {S : β → β → Prop} {f : α → β} (hf : ∀ a b, R a b → S (f a) (f b))
    (h : Trail R source target places) : Trail S (f source) (f target) (places.map f) where
  head := by rw [List.head?_map, h.head]; rfl
  last := by rw [List.getLast?_map, h.last]; rfl
  chain := List.isChain_map_of_isChain f hf h.chain

/-- A trail stays where it is, or its last edge comes after a trail. -/
theorem eq_or_exists_concat (h : Trail R source target places) :
    target = source ∧ places = [source] ∨ ∃ before a, places = before ++ [target] ∧
      Trail R source a before ∧ R a target := by
  obtain ⟨head, last, chain⟩ := h
  cases places using List.reverseRecOn with
  | nil => cases head
  | append_singleton before b =>
    obtain rfl : b = target := by simpa using last
    cases hlast : before.getLast? with
    | none =>
      obtain rfl : before = [] := List.getLast?_eq_none_iff.1 hlast
      obtain rfl : b = source := by simpa using head
      exact Or.inl ⟨rfl, rfl⟩
    | some a =>
      have hne : before ≠ [] := by
        rintro rfl
        cases hlast
      obtain ⟨hchain, -, hedge⟩ := List.isChain_append.1 chain
      have hhead : before.head? = some source := by
        simpa [List.head?_append_of_ne_nil _ hne] using head
      exact Or.inr ⟨before, a, rfl, ⟨hhead, hlast, hchain⟩, hedge a hlast b rfl⟩

/-- What holds at the start and behind every edge holds all the way. -/
theorem forall_mem (h : Trail R source target places) {P : α → Prop} (start : P source)
    (edges : ∀ a b, R a b → P b) : ∀ a ∈ places, P a := by
  induction places using List.reverseRecOn generalizing target with
  | nil => exact List.forall_mem_nil P
  | append_singleton before b ih =>
    rcases h.eq_or_exists_concat with ⟨rfl, hplaces⟩ | ⟨before', a, hplaces, hbefore, edge⟩
    · rw [hplaces]
      exact List.forall_mem_singleton.2 start
    · obtain ⟨rfl, hlast⟩ := List.append_inj' hplaces rfl
      rw [hplaces]
      exact List.forall_mem_append.2
        ⟨ih hbefore, List.forall_mem_singleton.2 (edges _ _ edge)⟩

/-- A trail is a walk. -/
theorem hops (h : Trail R source target places) : Hops R source (places.length - 1) target := by
  induction places using List.reverseRecOn generalizing target with
  | nil => cases h.head
  | append_singleton before b ih =>
    rcases h.eq_or_exists_concat with ⟨rfl, hplaces⟩ | ⟨before', a, hplaces, hbefore, edge⟩
    · rw [hplaces]
      exact .stay
    · obtain ⟨rfl, -⟩ := List.append_inj' hplaces rfl
      have hpos : 0 < before.length := List.length_pos_iff.2 hbefore.ne_nil
      have hlength : (before ++ [b]).length - 1 = before.length - 1 + 1 := by
        rw [List.length_append, List.length_singleton]
        omega
      rw [hlength]
      exact (ih hbefore).step edge

end Trail

/-- The places from one to another, each step along an edge and no place twice. -/
structure Route (R : α → α → Prop) (source target : α) (path : List α) : Prop where
  head : path.head? = some source
  last : path.getLast? = some target
  chain : path.IsChain R
  nodup : path.Nodup

namespace Route

variable {R : α → α → Prop} {source target : α} {path : List α}

theorem trail (h : Route R source target path) : Trail R source target path :=
  ⟨h.head, h.last, h.chain⟩

theorem map {S : β → β → Prop} {f : α → β} (hf : ∀ a b, R a b → S (f a) (f b))
    (distinct : ∀ a ∈ path, ∀ b ∈ path, f a = f b → a = b) (h : Route R source target path) :
    Route S (f source) (f target) (path.map f) :=
  have mapped := h.trail.map hf
  ⟨mapped.head, mapped.last, mapped.chain, List.Nodup.map_on distinct h.nodup⟩

theorem imp {S : α → α → Prop} (hf : ∀ a b, R a b → S a b) (h : Route R source target path) :
    Route S source target path :=
  ⟨h.head, h.last, h.chain.imp hf, h.nodup⟩

theorem single (a : α) : Route R a a [a] :=
  ⟨rfl, rfl, .singleton a, List.nodup_singleton a⟩

theorem snoc (h : Route R source target path) {next : α} (edge : R target next)
    (fresh : next ∉ path) : Route R source next (path ++ [next]) where
  head := by rw [List.head?_append, h.head]; rfl
  last := List.getLast?_concat
  chain := by
    refine List.isChain_append.2 ⟨h.chain, .singleton next, fun a ha b hb => ?_⟩
    obtain rfl := Option.some.inj (h.last.symm.trans ha)
    obtain rfl := Option.some.inj hb
    exact edge
  nodup := by
    refine List.nodup_append.2 ⟨h.nodup, List.nodup_singleton next, ?_⟩
    rintro a ha b hb rfl
    exact fresh (List.mem_singleton.1 hb ▸ ha)

theorem ne_nil (h : Route R source target path) : path ≠ [] :=
  h.trail.ne_nil

/-- A route is a walk. -/
theorem hops (h : Route R source target path) : Hops R source (path.length - 1) target :=
  h.trail.hops

end Route

/-- The places of a route whose end leads back to its start, with the start once more at the end. -/
def Cycle (R : α → α → Prop) (places : List α) : Prop :=
  ∃ first last path, Route R first last path ∧ R last first ∧ places = path ++ [first]

namespace Cycle

variable {R : α → α → Prop} {places : List α}

theorem map {S : β → β → Prop} {f : α → β} (hf : ∀ a b, R a b → S (f a) (f b))
    (distinct : ∀ a ∈ places, ∀ b ∈ places, f a = f b → a = b) (h : Cycle R places) :
    Cycle S (places.map f) := by
  obtain ⟨first, last, path, route, back, rfl⟩ := h
  have hdistinct : ∀ a ∈ path, ∀ b ∈ path, f a = f b → a = b := fun a ha b hb =>
    distinct a (List.mem_append_left _ ha) b (List.mem_append_left _ hb)
  exact ⟨f first, f last, path.map f, route.map hf hdistinct, hf _ _ back, List.map_append⟩

/-- Around a cycle a walk comes back to where it began. -/
theorem exists_hops (h : Cycle R places) : ∃ a n, Hops R a (n + 1) a := by
  obtain ⟨first, last, path, route, back, -⟩ := h
  exact ⟨first, path.length - 1, route.hops.step back⟩

theorem two_le_length (h : Cycle R places) : 2 ≤ places.length := by
  obtain ⟨first, last, path, route, -, rfl⟩ := h
  have hpos : 0 < path.length := List.length_pos_iff.2 route.ne_nil
  rw [List.length_append, List.length_singleton]
  omega

theorem head?_eq_getLast? (h : Cycle R places) : places.head? = places.getLast? := by
  obtain ⟨first, last, path, route, -, rfl⟩ := h
  rw [List.getLast?_concat, List.head?_append, route.head]
  rfl

/-- Every place of a cycle but its last leads to the next one. -/
theorem isChain (h : Cycle R places) : places.IsChain R := by
  obtain ⟨first, last, path, route, back, rfl⟩ := h
  refine List.isChain_append.2 ⟨route.chain, .singleton first, fun a ha b hb => ?_⟩
  obtain rfl := Option.some.inj (route.last.symm.trans ha)
  obtain rfl := Option.some.inj hb
  exact back

theorem nodup_dropLast (h : Cycle R places) : places.dropLast.Nodup := by
  obtain ⟨first, last, path, route, -, rfl⟩ := h
  rw [List.dropLast_concat]
  exact route.nodup

end Cycle

end Federation
