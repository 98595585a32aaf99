import Stepwise.Proofs.Catalog.Distance
import Stepwise.Proofs.Text.Bytes

/-!
# Suggestions

The name that stands in for an unknown one is the nearest of the known names, and of several that
are as near the one whose bytes come first. That is a property of the set of the known names, so it
does not matter in which order they are gone through.
-/

namespace Stepwise.Catalog

/-! ## The nearer of two names -/

/-- A name at a distance comes before another one: it is nearer, or as near and not greater. -/
def Precedes (x y : Nat × String) : Prop := x.1 < y.1 ∨ (x.1 = y.1 ∧ x.2 ≤ y.2)

theorem Precedes.refl (x : Nat × String) : Precedes x x := .inr ⟨rfl, String.le_refl x.2⟩

theorem Precedes.trans {x y z : Nat × String} (h : Precedes x y) (g : Precedes y z) :
    Precedes x z := by
  rcases h with near | ⟨near, less⟩
  · rcases g with far | ⟨far, -⟩
    · exact .inl (Nat.lt_trans near far)
    · exact .inl (far ▸ near)
  · rcases g with far | ⟨far, more⟩
    · exact .inl (near ▸ far)
    · exact .inr ⟨near.trans far, String.le_trans less more⟩

theorem nearer_cases (x y : Nat × String) :
    (nearer x y = x ∧ Precedes x y) ∨ (nearer x y = y ∧ Precedes y x) := by
  unfold nearer
  by_cases first : x.1 < y.1 ∨ (x.1 = y.1 ∧ x.2 ≤ y.2)
  · exact .inl ⟨if_pos first, first⟩
  · refine .inr ⟨if_neg first, ?_⟩
    rw [not_or, not_and] at first
    rcases Nat.lt_or_eq_of_le (Nat.not_lt.1 first.1) with less | same
    · exact .inl less
    · have greater := first.2 same.symm
      rw [String.not_le] at greater
      exact .inr ⟨same, String.not_lt.1 (String.lt_asymm greater)⟩

/-- What is left of a list is one of its entries, and comes before all of them. -/
theorem foldl_nearer (first : Nat × String) (rest : List (Nat × String)) :
    rest.foldl nearer first ∈ first :: rest ∧
      ∀ entry ∈ first :: rest, Precedes (rest.foldl nearer first) entry := by
  induction rest generalizing first with
  | nil =>
    refine ⟨List.mem_singleton_self first, ?_⟩
    intro entry member
    rw [List.mem_singleton.1 member]
    exact .refl first
  | cons second rest ih =>
    obtain ⟨member, least⟩ := ih (nearer first second)
    rw [List.forall_mem_cons] at least
    rw [List.foldl_cons]
    rcases nearer_cases first second with ⟨kept, before⟩ | ⟨kept, before⟩
    · rw [kept] at member least ⊢
      refine ⟨?_, ?_⟩
      · rcases List.mem_cons.1 member with same | member
        · exact List.mem_cons.2 (.inl same)
        · exact List.mem_cons_of_mem _ (List.mem_cons_of_mem _ member)
      · rw [List.forall_mem_cons, List.forall_mem_cons]
        exact ⟨least.1, least.1.trans before, least.2⟩
    · rw [kept] at member least ⊢
      refine ⟨List.mem_cons_of_mem _ member, ?_⟩
      rw [List.forall_mem_cons, List.forall_mem_cons]
      exact ⟨least.1.trans before, least.1, least.2⟩

/-! ## The nearest name -/

/-- The nearest of some names: no other one is fewer edits away, and of those that are as many, no
other one has smaller bytes. -/
structure IsNearest (known : List String) (name found : String) : Prop where
  mem : found ∈ known
  inReach : distance name found ≤ 3
  nearest : ∀ other ∈ known, distance name found ≤ distance name other
  first : ∀ other ∈ known, distance name other = distance name found →
    Text.bytes found ≤ Text.bytes other

variable {known : List String} {name found : String}

/-- There is one nearest name at most. -/
theorem IsNearest.unique {other : String} (h : IsNearest known name found)
    (g : IsNearest known name other) : found = other := by
  have same := Nat.le_antisymm (h.nearest other g.mem) (g.nearest found h.mem)
  have le := Text.bytes_le_iff.1 (h.first other g.mem same.symm)
  have ge := Text.bytes_le_iff.1 (g.first found h.mem same)
  exact String.le_antisymm le ge

theorem IsNearest.congr {others : List String} (h : IsNearest known name found)
    (same : ∀ other, other ∈ known ↔ other ∈ others) : IsNearest others name found where
  mem := (same found).1 h.mem
  inReach := h.inReach
  nearest := fun other member => h.nearest other ((same other).2 member)
  first := fun other member => h.first other ((same other).2 member)

/-- The known names within reach, each with its distance. -/
def near (name : String) (known : List String) : List (Nat × String) :=
  (known.map fun other => (distance name other, other)).filter fun entry => entry.1 ≤ reach

theorem mem_near {entry : Nat × String} :
    entry ∈ near name known ↔
      entry.2 ∈ known ∧ entry.1 = distance name entry.2 ∧ entry.1 ≤ 3 := by
  unfold near
  rw [List.mem_filter, List.mem_map, decide_eq_true_eq]
  constructor
  · rintro ⟨⟨other, member, rfl⟩, within⟩
    exact ⟨member, rfl, within⟩
  · rintro ⟨member, same, within⟩
    exact ⟨⟨entry.2, member, Prod.ext same.symm rfl⟩, within⟩

/-- What comes before all the known names within reach is the nearest of the known names. -/
theorem isNearest_of_mem_near {best : Nat × String} (member : best ∈ near name known)
    (least : ∀ entry ∈ near name known, Precedes best entry) : IsNearest known name best.2 := by
  obtain ⟨hmem, hdistance, within⟩ := mem_near.1 member
  rw [hdistance] at within
  have before (other : String) (hother : other ∈ known) (close : distance name other ≤ 3) :
      Precedes best (distance name other, other) := least _ (mem_near.2 ⟨hother, rfl, close⟩)
  refine ⟨hmem, within, ?_, ?_⟩
  · intro other hother
    by_cases close : distance name other ≤ 3
    · rw [← hdistance]
      rcases before other hother close with less | ⟨same, -⟩
      · exact Nat.le_of_lt less
      · exact Nat.le_of_eq same
    · omega
  · intro other hother same
    rcases before other hother (same ▸ within) with less | ⟨-, le⟩
    · rw [hdistance, same] at less
      exact absurd less (Nat.lt_irrefl _)
    · exact Text.bytes_le_iff.2 le

theorem nearest_eq (name : String) (known : List String) :
    nearest name known =
      match near name known with
      | [] => none
      | first :: rest => some (rest.foldl nearer first).2 := rfl

/-- Either no name is within reach and none is found, or the nearest one is. -/
theorem nearest_cases (name : String) (known : List String) :
    (nearest name known = none ∧ ∀ other ∈ known, 3 < distance name other) ∨
      ∃ found, nearest name known = some found ∧ IsNearest known name found := by
  rw [nearest_eq]
  cases hnear : near name known with
  | nil =>
    refine .inl ⟨rfl, ?_⟩
    intro other member
    rw [← Nat.not_le]
    intro within
    have entry : (distance name other, other) ∈ near name known :=
      mem_near.2 ⟨member, rfl, within⟩
    rw [hnear] at entry
    exact List.not_mem_nil entry
  | cons first rest =>
    obtain ⟨member, least⟩ := foldl_nearer first rest
    rw [← hnear] at member least
    exact .inr ⟨_, rfl, isNearest_of_mem_near member least⟩

theorem nearest_eq_some_iff : nearest name known = some found ↔ IsNearest known name found := by
  rcases nearest_cases name known with ⟨missing, far⟩ | ⟨best, hbest, best_nearest⟩
  · rw [missing]
    constructor
    · nofun
    · intro h
      exact absurd h.inReach (Nat.not_le.2 (far found h.mem))
  · rw [hbest, Option.some.injEq]
    constructor
    · rintro rfl
      exact best_nearest
    · exact best_nearest.unique

theorem isSome_nearest_iff :
    (nearest name known).isSome ↔ ∃ other ∈ known, distance name other ≤ 3 := by
  rcases nearest_cases name known with ⟨missing, far⟩ | ⟨best, hbest, best_nearest⟩
  · rw [missing]
    constructor
    · nofun
    · rintro ⟨other, member, within⟩
      exact absurd within (Nat.not_le.2 (far other member))
  · rw [hbest]
    exact ⟨fun _ => ⟨best, best_nearest.mem, best_nearest.inReach⟩, fun _ => rfl⟩

/-- The nearest name depends on nothing but which names are known. -/
theorem nearest_congr {others : List String} (same : ∀ other, other ∈ known ↔ other ∈ others) :
    nearest name others = nearest name known := by
  apply Option.ext
  intro found
  rw [nearest_eq_some_iff, nearest_eq_some_iff]
  constructor
  · intro h
    exact h.congr fun other => (same other).symm
  · intro h
    exact h.congr same

/-! ## Suggestions of a catalogue -/

/-- What is suggested for a name: nothing where every name is known, and else the nearest of the
known names, if one is within reach. -/
structure Suggests (names : Names) (name : String) (suggestion : Option String) : Prop where
  isSome_iff : suggestion.isSome ↔
    ∃ known, names = some known ∧ ∃ other ∈ known, distance name other ≤ 3
  eq_some_iff : ∀ found, suggestion = some found ↔
    ∃ known, names = some known ∧ IsNearest known name found

/-- The same names, in any order and any number of times; or all names. -/
def SameNames (names others : Names) : Prop :=
  Option.Rel (fun known known' => ∀ name, name ∈ known ↔ name ∈ known') names others

theorem suggests_suggest (names : Names) (name : String) :
    Suggests names name (suggest names name) := by
  cases names with
  | none => exact ⟨by simp [suggest], by simp [suggest]⟩
  | some known =>
    refine ⟨?_, ?_⟩
    · simpa [suggest] using isSome_nearest_iff
    · intro found
      simpa [suggest] using nearest_eq_some_iff

theorem suggest_congr {names others : Names} (same : SameNames names others) (name : String) :
    suggest others name = suggest names name := by
  cases same with
  | none => rfl
  | some same => exact nearest_congr same

/-- What a catalogue suggests for an unknown name is the nearest known one by the least number of
edits, whatever the order in which it lists its names. -/
theorem suggestions_nearest (catalog : Catalog) (name : String) :
    (∀ a b, IsDistance (distance a b) a b) ∧
      Suggests catalog.tasks name (catalog.suggestTask name) ∧
      Suggests catalog.tools name (catalog.suggestTool name) ∧
      ∀ other : Catalog,
        (SameNames catalog.tasks other.tasks → other.suggestTask name = catalog.suggestTask name) ∧
        (SameNames catalog.tools other.tools →
          other.suggestTool name = catalog.suggestTool name) := by
  refine ⟨isDistance_distance, suggests_suggest _ name, suggests_suggest _ name, ?_⟩
  intro other
  refine ⟨?_, ?_⟩
  · intro same
    exact suggest_congr same name
  · intro same
    exact suggest_congr same name

/-- Two of three tools are one edit away, and the one with the smaller bytes is suggested whichever
way the list goes. -/
theorem suggestions_nearest_reversed :
    SameNames (some ["fetch"]) (some ["fetch"]) ∧
      SameNames (some ["mop", "map", "top"]) (some ["top", "map", "mop"]) ∧
      Catalog.suggestTask ⟨some ["fetch"], some ["top", "map", "mop"]⟩ "fetsh" =
        Catalog.suggestTask ⟨some ["fetch"], some ["mop", "map", "top"]⟩ "fetsh" ∧
      Catalog.suggestTool ⟨some ["fetch"], some ["top", "map", "mop"]⟩ "mep" =
        Catalog.suggestTool ⟨some ["fetch"], some ["mop", "map", "top"]⟩ "mep" ∧
      Catalog.suggestTool ⟨some ["fetch"], some ["mop", "map", "top"]⟩ "mep" = some "map" := by
  have tasks : SameNames (some ["fetch"]) (some ["fetch"]) := .some fun _ => Iff.rfl
  have tools : SameNames (some ["mop", "map", "top"]) (some ["top", "map", "mop"]) := by
    refine .some fun name => ?_
    simp only [List.mem_cons, List.not_mem_nil, or_false]
    grind
  have same := (suggestions_nearest ⟨some ["fetch"], some ["mop", "map", "top"]⟩ "fetsh").2.2.2
    ⟨some ["fetch"], some ["top", "map", "mop"]⟩
  have tied := (suggestions_nearest ⟨some ["fetch"], some ["mop", "map", "top"]⟩ "mep").2.2.2
    ⟨some ["fetch"], some ["top", "map", "mop"]⟩
  exact ⟨tasks, tools, same.1 tasks, tied.2 tools, by decide⟩

end Stepwise.Catalog
