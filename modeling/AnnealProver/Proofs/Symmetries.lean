import Mathlib.Data.List.Forall2
import Mathlib.Data.List.Nodup
import Mathlib.Data.List.Perm.Basic
import Mathlib.Data.Set.Function
import AnnealProver.Learning.Features
import AnnealProver.Proofs.Keys

/-!
# What the features of a problem do not see

The features of a problem stay the same when the axioms are put in another order, when variables are
renamed without two of them becoming one, and when formulas are replaced by alike ones.

All three changes are treated as one.  A formula **mirrors** another if it is alike to what renaming
makes of that (`Mirrors`), and two lists correspond **up to order** if a permutation of one
corresponds to the other member by member (`UpToOrder`).  What is counted, added up or asked of some
member is then the same for both lists, as soon as it is the same for members that mirror each
other.  That is the case for what is computed from the parts without regard to names and to the
order of sides, for being alike, and for the names of a formula up to renaming.
-/

namespace AnnealProver

/-! ## Lists up to order -/

/-- The members of some permutation of the first list are related to those of the second. -/
def UpToOrder {α β : Type} (R : α → β → Prop) (as : List α) (bs : List β) : Prop :=
  ∃ as', as.Perm as' ∧ List.Forall₂ R as' bs

namespace UpToOrder

variable {α β γ δ : Type} {R : α → β → Prop} {as : List α} {bs : List β}

lemma of_forall₂ (h : List.Forall₂ R as bs) : UpToOrder R as bs :=
  ⟨as, .refl as, h⟩

lemma concat (h : UpToOrder R as bs) {a : α} {b : β} (hab : R a b) :
    UpToOrder R (as ++ [a]) (bs ++ [b]) := by
  obtain ⟨as', hperm, hrel⟩ := h
  exact ⟨as' ++ [a], hperm.append_right [a], List.rel_append hrel (.cons hab .nil)⟩

lemma map_perm (h : UpToOrder R as bs) {F : α → γ} {G : β → γ} (hFG : ∀ a b, R a b → F a = G b) :
    (as.map F).Perm (bs.map G) := by
  obtain ⟨as', hperm, hrel⟩ := h
  have heq : as'.map F = bs.map G := by
    rw [← List.forall₂_eq_eq_eq, List.forall₂_map_left_iff, List.forall₂_map_right_iff]
    exact hrel.imp hFG
  rw [← heq]
  exact hperm.map F

lemma length_eq (h : UpToOrder R as bs) : as.length = bs.length := by
  obtain ⟨as', hperm, hrel⟩ := h
  rw [hperm.length_eq, hrel.length_eq]

lemma any_eq (h : UpToOrder R as bs) {p : α → Bool} {q : β → Bool}
    (hpq : ∀ a b, R a b → p a = q b) : as.any p = bs.any q := by
  have hperm := h.map_perm hpq
  simpa [List.any_map] using hperm.any_eq (f := id)

lemma countP_eq (h : UpToOrder R as bs) {p : α → Bool} {q : β → Bool}
    (hpq : ∀ a b, R a b → p a = q b) : as.countP p = bs.countP q := by
  have hperm := h.map_perm hpq
  simpa [List.countP_map] using hperm.countP_eq id

lemma exists_iff (h : UpToOrder R as bs) {P : α → Prop} {Q : β → Prop}
    (hPQ : ∀ a b, R a b → (P a ↔ Q b)) : (∃ a ∈ as, P a) ↔ ∃ b ∈ bs, Q b := by
  classical
  have hany : as.any (fun a => decide (P a)) = bs.any fun b => decide (Q b) :=
    h.any_eq fun a b hab => decide_eq_decide.2 (hPQ a b hab)
  rw [Bool.eq_iff_iff] at hany
  simpa using hany

lemma filterMap (h : UpToOrder R as bs) {S : γ → δ → Prop} {F : α → Option γ} {G : β → Option δ}
    (hFG : ∀ a b, R a b → Option.Rel S (F a) (G b)) :
    UpToOrder S (as.filterMap F) (bs.filterMap G) := by
  obtain ⟨as', hperm, hrel⟩ := h
  exact ⟨as'.filterMap F, hperm.filterMap F, List.rel_filterMap hFG hrel⟩

end UpToOrder

/-! ## Sums and averages -/

namespace Feature

variable {counts counts' : List Nat}

lemma total_perm (h : counts.Perm counts') : total counts = total counts' :=
  h.foldl_eq 0

lemma largest_perm (h : counts.Perm counts') : largest counts = largest counts' :=
  h.foldl_eq 0

lemma average_perm (h : counts.Perm counts') : average counts = average counts' := by
  have hempty : counts.isEmpty = counts'.isEmpty := by
    rw [Bool.eq_iff_iff, List.isEmpty_iff, List.isEmpty_iff]
    exact ⟨fun hnil => (hnil ▸ h).nil_eq.symm, fun hnil => (hnil ▸ h).eq_nil⟩
  rw [average, average, hempty, total_perm h, h.length_eq]

end Feature

/-! ## Renaming -/

namespace Formula

variable {ρ : String → String} {S : Set String} {f f' g g' : Formula}

/-- Gives the variables other names. -/
def rename (ρ : String → String) : Formula → Formula
  | var x => var (ρ x)
  | neg a => neg (rename ρ a)
  | conj a b => conj (rename ρ a) (rename ρ b)
  | disj a b => disj (rename ρ a) (rename ρ b)
  | impl a b => impl (rename ρ a) (rename ρ b)
  | iff a b => iff (rename ρ a) (rename ρ b)

@[simp] lemma rename_apply (c : Connective) (a b : Formula) :
    (c.apply a b).rename ρ = c.apply (a.rename ρ) (b.rename ρ) := by
  cases c <;> rfl

@[simp] lemma names_rename (f : Formula) : (f.rename ρ).names = f.names.map ρ := by
  induction f using connectiveInduction with
  | var x => rfl
  | neg a ih => exact ih
  | join c a b iha ihb => rw [rename_apply, names_apply, names_apply, iha, ihb, List.map_append]

lemma rename_opposite (f : Formula) : f.opposite.rename ρ = (f.rename ρ).opposite := by
  cases f <;> rfl

@[simp] lemma rename_id (f : Formula) : f.rename id = f := by
  induction f using connectiveInduction with
  | var x => rfl
  | neg a ih => rw [rename, ih]
  | join c a b iha ihb => rw [rename_apply, iha, ihb]

@[simp] lemma size_rename (f : Formula) : (f.rename ρ).size = f.size := by
  induction f using connectiveInduction with
  | var x => rfl
  | neg a ih => rw [rename, size, size, ih]
  | join c a b iha ihb => rw [rename_apply, size_apply, size_apply, iha, ihb]

@[simp] lemma depth_rename (f : Formula) : (f.rename ρ).depth = f.depth := by
  induction f using connectiveInduction with
  | var x => rfl
  | neg a ih => rw [rename, depth, depth, ih]
  | join c a b iha ihb => rw [rename_apply, depth_apply, depth_apply, iha, ihb]

@[simp] lemma isVar_rename (f : Formula) : (f.rename ρ).isVar = f.isVar := by
  cases f <;> rfl

/-- Where no two variables become one, formulas are alike exactly if they were before. -/
lemma alike_rename (hρ : Set.InjOn ρ S) (hf : ∀ x ∈ f.names, x ∈ S) (hg : ∀ x ∈ g.names, x ∈ S) :
    (f.rename ρ).alike (g.rename ρ) = f.alike g := by
  induction f generalizing g with
  | var x =>
      cases g with
      | var y =>
          have hx : x ∈ S := hf x List.mem_cons_self
          have hy : y ∈ S := hg y List.mem_cons_self
          simp only [rename, alike]
          rw [Bool.eq_iff_iff, beq_iff_eq, beq_iff_eq, hρ.eq_iff hx hy]
      | _ => rfl
  | neg a ih =>
      cases g with
      | neg b => exact ih hf hg
      | _ => rfl
  | conj a b iha ihb | disj a b iha ihb | impl a b iha ihb | iff a b iha ihb =>
      cases g <;> try rfl
      -- sides are compared crosswise too, so each of them is needed against both
      simp only [names, List.mem_append, or_imp, forall_and] at hf hg
      simp only [rename, alike, iha hf.1 hg.1, iha hf.1 hg.2, ihb hf.2 hg.1, ihb hf.2 hg.2]

lemma alike_congr (h : f.alike g = true) (h' : f'.alike g' = true) :
    f.alike f' = g.alike g' := by
  rw [Bool.eq_iff_iff]
  exact ⟨fun hff => alike_trans (alike_symm h) (alike_trans hff h'),
    fun hgg => alike_trans h (alike_trans hgg (alike_symm h'))⟩

/-! ## Formulas that mirror each other -/

/-- The second formula is alike to what the renaming makes of the first, whose names are among those
given. -/
structure Mirrors (ρ : String → String) (S : Set String) (f g : Formula) : Prop where
  within : ∀ x ∈ f.names, x ∈ S
  alike : (f.rename ρ).alike g = true

/-- Two formulas made alike from parts that are related, sides being swapped or not. -/
inductive Shape (R : Formula → Formula → Prop) : Formula → Formula → Prop
  | var (x y : String) : Shape R (var x) (var y)
  | neg {a b : Formula} : R a b → Shape R (neg a) (neg b)
  | impl {a b c d : Formula} : R a c → R b d → Shape R (impl a b) (impl c d)
  | conj {a b c d : Formula} : R a c ∧ R b d ∨ R a d ∧ R b c → Shape R (conj a b) (conj c d)
  | disj {a b c d : Formula} : R a c ∧ R b d ∨ R a d ∧ R b c → Shape R (disj a b) (disj c d)
  | iff {a b c d : Formula} : R a c ∧ R b d ∨ R a d ∧ R b c → Shape R (iff a b) (iff c d)

namespace Mirrors

lemma sides {a b c d : Formula} (hnames : ∀ x ∈ a.names ++ b.names, x ∈ S)
    (halike : sidesAlike (a.rename ρ) (b.rename ρ) c d = true) :
    Mirrors ρ S a c ∧ Mirrors ρ S b d ∨ Mirrors ρ S a d ∧ Mirrors ρ S b c := by
  rw [List.forall_mem_append] at hnames
  rcases sidesAlike_iff.1 halike with ⟨hac, hbd⟩ | ⟨had, hbc⟩
  · exact Or.inl ⟨⟨hnames.1, hac⟩, hnames.2, hbd⟩
  · exact Or.inr ⟨⟨hnames.1, had⟩, hnames.2, hbc⟩

/-- Formulas that mirror each other are of the same shape, and so are their parts. -/
lemma shape (h : Mirrors ρ S f g) : Shape (Mirrors ρ S) f g := by
  obtain ⟨hnames, halike⟩ := h
  cases f <;> cases g <;> simp only [rename, Formula.alike, Bool.false_eq_true] at halike
  case var.var x y => exact .var x y
  case neg.neg a b => exact .neg ⟨hnames, halike⟩
  case impl.impl a b c d =>
    rw [Bool.and_eq_true] at halike
    simp only [names, List.forall_mem_append] at hnames
    exact .impl ⟨hnames.1, halike.1⟩ ⟨hnames.2, halike.2⟩
  case conj.conj a b c d => exact .conj (sides hnames halike)
  case disj.disj a b c d => exact .disj (sides hnames halike)
  case iff.iff a b c d => exact .iff (sides hnames halike)

lemma of_alike (h : f.alike g = true) : Mirrors id Set.univ f g :=
  ⟨fun _ _ => trivial, by rwa [rename_id]⟩

lemma size_eq (h : Mirrors ρ S f g) : f.size = g.size := by
  rw [← size_eq_of_alike h.alike, size_rename]

lemma depth_eq (h : Mirrors ρ S f g) : f.depth = g.depth := by
  rw [← depth_eq_of_alike h.alike, depth_rename]

lemma isVar_eq (h : Mirrors ρ S f g) : f.isVar = g.isVar := by
  rw [← isVar_eq_of_alike h.alike, isVar_rename]

lemma alike_eq (hρ : Set.InjOn ρ S) (h : Mirrors ρ S f g) (h' : Mirrors ρ S f' g') :
    f.alike f' = g.alike g' := by
  rw [← alike_congr h.alike h'.alike, alike_rename hρ h.within h'.within]

lemma neg (h : Mirrors ρ S f g) : Mirrors ρ S (neg f) (neg g) :=
  ⟨h.within, h.alike⟩

lemma opposite (h : Mirrors ρ S f g) : Mirrors ρ S f.opposite g.opposite where
  within := by
    rw [names_opposite]
    exact h.within
  alike := by
    rw [rename_opposite]
    exact opposite_alike h.alike

lemma mem_names_iff (h : Mirrors ρ S f g) {y : String} :
    y ∈ g.names ↔ ∃ x ∈ f.names, ρ x = y := by
  rw [← mem_names_iff_of_alike h.alike, names_rename, List.mem_map]

lemma rename_mem_names_iff (hρ : Set.InjOn ρ S) (h : Mirrors ρ S f g) {x : String} (hx : x ∈ S) :
    ρ x ∈ g.names ↔ x ∈ f.names := by
  rw [h.mem_names_iff]
  constructor
  · rintro ⟨y, hy, heq⟩
    rwa [hρ (h.within y hy) hx heq] at hy
  · exact fun hxf => ⟨x, hxf, rfl⟩

/-- A test with the same result on formulas that mirror each other has it somewhere inside both, or
inside neither. -/
lemma any_subformulas (h : Mirrors ρ S f g) {p : Formula → Bool}
    (hp : ∀ {a b}, Mirrors ρ S a b → p a = p b) : f.subformulas.any p = g.subformulas.any p := by
  induction f generalizing g with
  | var x =>
      cases h.shape
      simp only [subformulas, List.any_cons, hp h]
  | neg a ih =>
      cases h.shape with
      | neg hab => simp only [subformulas, List.any_cons, hp h, ih hab]
  | impl a b iha ihb =>
      cases h.shape with
      | impl hac hbd =>
          simp only [subformulas, List.any_cons, List.any_append, hp h, iha hac, ihb hbd]
  | conj a b iha ihb | disj a b iha ihb | iff a b iha ihb =>
      cases h.shape
      rename_i c d hsides
      rcases hsides with ⟨hac, hbd⟩ | ⟨had, hbc⟩
      · simp only [subformulas, List.any_cons, List.any_append, hp h, iha hac, ihb hbd]
      · simp only [subformulas, List.any_cons, List.any_append, hp h, iha had, ihb hbc,
          Bool.or_comm]

lemma hasImpl_eq (h : Mirrors ρ S f g) : f.hasImpl = g.hasImpl :=
  h.any_subformulas fun hab => by cases hab.shape <;> rfl

lemma hasNeg_eq (h : Mirrors ρ S f g) : f.hasNeg = g.hasNeg :=
  h.any_subformulas fun hab => by cases hab.shape <;> rfl

lemma hasConj_eq (h : Mirrors ρ S f g) : f.hasConj = g.hasConj :=
  h.any_subformulas fun hab => by cases hab.shape <;> rfl

lemma hasDisj_eq (h : Mirrors ρ S f g) : f.hasDisj = g.hasDisj :=
  h.any_subformulas fun hab => by cases hab.shape <;> rfl

lemma hasIff_eq (h : Mirrors ρ S f g) : f.hasIff = g.hasIff :=
  h.any_subformulas fun hab => by cases hab.shape <;> rfl

end Mirrors

end Formula

/-! ## Features -/

namespace Features

open Feature Formula

variable {ρ : String → String} {S : Set String} {axioms axioms' : List Formula}
  {goal goal' f g : Formula}

lemma isAmong_eq (hρ : Set.InjOn ρ S) (haxioms : UpToOrder (Mirrors ρ S) axioms axioms')
    (h : Mirrors ρ S f g) : f.isAmong axioms = g.isAmong axioms' :=
  haxioms.any_eq fun _ _ hab => hab.alike_eq hρ h

/-! ### Potentials -/

lemma ponensPotential_eq (hρ : Set.InjOn ρ S) (haxioms : UpToOrder (Mirrors ρ S) axioms axioms')
    (hgoal : Mirrors ρ S goal goal') :
    ponensPotential axioms goal = ponensPotential axioms' goal' := by
  refine congrArg₂ share (total_perm (haxioms.map_perm fun f g h => ?_)) haxioms.length_eq
  cases h.shape with
  | impl hp hq => simp only [isAmong_eq hρ haxioms hp, hq.alike_eq hρ hgoal]
  | _ => rfl

lemma tollensPotential_eq (hρ : Set.InjOn ρ S) (haxioms : UpToOrder (Mirrors ρ S) axioms axioms')
    (hgoal : Mirrors ρ S goal goal') :
    tollensPotential axioms goal = tollensPotential axioms' goal' := by
  refine congrArg₂ share (total_perm (haxioms.map_perm fun f g h => ?_)) haxioms.length_eq
  cases h.shape with
  | impl hp hq => simp only [isAmong_eq hρ haxioms hq.neg, hgoal.alike_eq hρ hp.neg]
  | _ => rfl

lemma conjElimPotential_eq (haxioms : UpToOrder (Mirrors ρ S) axioms axioms') :
    conjElimPotential axioms = conjElimPotential axioms' := by
  refine congrArg₂ share (haxioms.countP_eq fun f g h => ?_) haxioms.length_eq
  cases h.shape <;> rfl

lemma doubleNegPotential_eq (haxioms : UpToOrder (Mirrors ρ S) axioms axioms') :
    doubleNegPotential axioms = doubleNegPotential axioms' := by
  refine congrArg₂ share (haxioms.countP_eq fun f g h => ?_) haxioms.length_eq
  cases h.shape with
  | neg hab => cases hab.shape <;> rfl
  | _ => rfl

lemma disjIntroPotential_eq (hρ : Set.InjOn ρ S)
    (haxioms : UpToOrder (Mirrors ρ S) axioms axioms') (hgoal : Mirrors ρ S goal goal') :
    disjIntroPotential axioms goal = disjIntroPotential axioms' goal' := by
  cases hgoal.shape with
  | disj hsides =>
      rcases hsides with ⟨hp, hq⟩ | ⟨hp, hq⟩
      · simp only [disjIntroPotential, isAmong_eq hρ haxioms hp, isAmong_eq hρ haxioms hq]
      · simp only [disjIntroPotential, isAmong_eq hρ haxioms hp, isAmong_eq hρ haxioms hq,
          Bool.or_comm]
  | _ => rfl

lemma contradictionPotential_eq (hρ : Set.InjOn ρ S)
    (haxioms : UpToOrder (Mirrors ρ S) axioms axioms') :
    contradictionPotential axioms = contradictionPotential axioms' :=
  congrArg flag (haxioms.any_eq fun _ _ h => isAmong_eq hρ haxioms h.opposite)

/-- Pairs lead on to each other equally often in lists whose sides mirror each other. -/
lemma chain_eq (hρ : Set.InjOn ρ S) {arrows arrows' : List (Formula × Formula)}
    (h : UpToOrder (fun a b => Mirrors ρ S a.1 b.1 ∧ Mirrors ρ S a.2 b.2) arrows arrows') :
    (if arrows.length < 2 then (0 : Rat) else
      share (total (arrows.map fun a => arrows.countP fun b => a.2.alike b.1)) arrows.length) =
    if arrows'.length < 2 then (0 : Rat) else
      share (total (arrows'.map fun a => arrows'.countP fun b => a.2.alike b.1))
        arrows'.length := by
  have hlinks := total_perm (h.map_perm fun a b hab =>
    h.countP_eq fun c d hcd => hab.2.alike_eq hρ hcd.1)
  rw [h.length_eq, hlinks]

lemma chainPotential_eq (hρ : Set.InjOn ρ S)
    (haxioms : UpToOrder (Mirrors ρ S) axioms axioms') :
    chainPotential axioms = chainPotential axioms' := by
  simp only [chainPotential]
  refine chain_eq hρ (haxioms.filterMap fun f g h => ?_)
  cases h.shape with
  | impl hp hq => exact .some ⟨hp, hq⟩
  | _ => exact .none

/-! ### Names -/

section Names

variable {fs gs : List Formula}

lemma mem_of_mem_varsOf (h : UpToOrder (Mirrors ρ S) fs gs) {x : String}
    (hx : x ∈ (varsOf fs).toList) : x ∈ S := by
  by_contra hnot
  have hnone : (∃ f ∈ fs, x ∈ f.names) ↔ ∃ g ∈ gs, False :=
    h.exists_iff fun f g hfg => ⟨fun hxf => hnot (hfg.within x hxf), False.elim⟩
  simpa using hnone.1 (mem_varsOf.1 hx)

/-- The names of one list, renamed, are the names of the other. -/
lemma map_varsOf_perm (hρ : Set.InjOn ρ S) (h : UpToOrder (Mirrors ρ S) fs gs) :
    ((varsOf fs).toList.map ρ).Perm (varsOf gs).toList := by
  have hnodup : ((varsOf fs).toList.map ρ).Nodup :=
    List.Nodup.map_on
      (fun x hx y hy heq => hρ (mem_of_mem_varsOf h hx) (mem_of_mem_varsOf h hy) heq)
      (nodup_nameSet _)
  rw [List.perm_ext_iff_of_nodup hnodup (nodup_nameSet _)]
  intro y
  rw [mem_varsOf, ← h.exists_iff fun f g hfg => hfg.mem_names_iff.symm, List.mem_map]
  simp only [mem_varsOf]
  constructor
  · rintro ⟨x, ⟨f, hf, hx⟩, hxy⟩
    exact ⟨f, hf, x, hx, hxy⟩
  · rintro ⟨f, hf, x, hx, hxy⟩
    exact ⟨x, ⟨f, hf, hx⟩, hxy⟩

lemma size_varsOf_eq (hρ : Set.InjOn ρ S) (h : UpToOrder (Mirrors ρ S) fs gs) :
    (varsOf fs).size = (varsOf gs).size := by
  rw [OrderedSet.size, OrderedSet.size, ← (map_varsOf_perm hρ h).length_eq, List.length_map]

lemma contains_varsOf_eq (hρ : Set.InjOn ρ S) (h : UpToOrder (Mirrors ρ S) fs gs) {x : String}
    (hx : x ∈ S) : (varsOf fs).contains x = (varsOf gs).contains (ρ x) := by
  rw [Bool.eq_iff_iff, contains_nameSet, contains_nameSet, mem_varsOf, mem_varsOf]
  exact h.exists_iff fun f g hfg => (hfg.rename_mem_names_iff hρ hx).symm

/-- Names that correspond occur in equally many formulas. -/
lemma frequencies_perm (hρ : Set.InjOn ρ S) (h : UpToOrder (Mirrors ρ S) fs gs) :
    (frequencies fs).Perm (frequencies gs) := by
  have hcount : ∀ x ∈ (varsOf fs).toList, (fs.countP fun f => f.vars.contains x) =
      gs.countP fun g => g.vars.contains (ρ x) := by
    intro x hx
    refine h.countP_eq fun f g hfg => ?_
    rw [vars_eq_varsOf, vars_eq_varsOf]
    exact contains_varsOf_eq hρ (.of_forall₂ (.cons hfg .nil)) (mem_of_mem_varsOf h hx)
  -- the second list counts its own names, which are those of the first, renamed, in some order
  have hmap := (map_varsOf_perm hρ h).map fun y => gs.countP fun g => g.vars.contains y
  rw [List.map_map] at hmap
  rw [frequencies, List.map_congr_left hcount]
  exact hmap

/-- As many names of the one formula occur in the list as of the other. -/
lemma shared_eq (hρ : Set.InjOn ρ S) (h : UpToOrder (Mirrors ρ S) fs gs) (hfg : Mirrors ρ S f g) :
    f.vars.toList.countP (varsOf fs).contains = g.vars.toList.countP (varsOf gs).contains := by
  have hnames : UpToOrder (Mirrors ρ S) [f] [g] := .of_forall₂ (.cons hfg .nil)
  rw [vars_eq_varsOf, vars_eq_varsOf, ← (map_varsOf_perm hρ hnames).countP_eq, List.countP_map]
  refine List.countP_congr fun x hx => ?_
  rw [contains_varsOf_eq hρ h (mem_of_mem_varsOf hnames hx), Function.comp_apply]

end Names

/-! ### All features -/

lemma ofProblem_eq (hρ : Set.InjOn ρ S) (haxioms : UpToOrder (Mirrors ρ S) axioms axioms')
    (hgoal : Mirrors ρ S goal goal') : ofProblem axioms goal = ofProblem axioms' goal' := by
  have hall : UpToOrder (Mirrors ρ S) (axioms ++ [goal]) (axioms' ++ [goal']) :=
    haxioms.concat hgoal
  have hgoalVars : goal.vars.size = goal'.vars.size := by
    rw [vars_eq_varsOf, vars_eq_varsOf]
    exact size_varsOf_eq hρ (.of_forall₂ (.cons hgoal .nil))
  have hsizes := total_perm (hall.map_perm fun _ _ h => h.size_eq)
  have hdepths := hall.map_perm fun _ _ h => h.depth_eq
  have hfrequencies := frequencies_perm hρ hall
  simp only [ofProblem, haxioms.length_eq, size_varsOf_eq hρ hall, hsizes, largest_perm hdepths,
    average_perm hdepths, haxioms.any_eq fun _ _ h => h.hasImpl_eq,
    haxioms.any_eq fun _ _ h => h.hasNeg_eq, haxioms.any_eq fun _ _ h => h.hasConj_eq,
    haxioms.any_eq fun _ _ h => h.hasDisj_eq, haxioms.any_eq fun _ _ h => h.hasIff_eq,
    hgoal.hasImpl_eq, hgoal.hasNeg_eq, hgoal.hasConj_eq, hgoal.hasDisj_eq, hgoal.hasIff_eq,
    hgoal.size_eq, hgoal.depth_eq, hgoal.isVar_eq, ponensPotential_eq hρ haxioms hgoal,
    tollensPotential_eq hρ haxioms hgoal, conjElimPotential_eq haxioms,
    disjIntroPotential_eq hρ haxioms hgoal, doubleNegPotential_eq haxioms,
    chainPotential_eq hρ haxioms, contradictionPotential_eq hρ haxioms,
    isAmong_eq hρ haxioms hgoal, shared_eq hρ haxioms hgoal, hgoalVars,
    average_perm hfrequencies, largest_perm hfrequencies, hfrequencies.countP_eq]

/-- **Features do not see symmetries.**  The features of a problem are 32 values that do not change
when the axioms are permuted, when variables are renamed so that no two of the problem become one,
and when axioms and goal are replaced by alike formulas. -/
theorem features_symmetric (axioms : List Formula) (goal : Formula) :
    (ofProblem axioms goal).length = 32 ∧
    (∀ axioms' : List Formula, axioms.Perm axioms' →
      ofProblem axioms' goal = ofProblem axioms goal) ∧
    (∀ ρ : String → String, Set.InjOn ρ {x | x ∈ (varsOf (axioms ++ [goal])).toList} →
      ofProblem (axioms.map (rename ρ)) (goal.rename ρ) = ofProblem axioms goal) ∧
    (∀ (axioms' : List Formula) (goal' : Formula),
      List.Forall₂ (fun f g => f.alike g = true) axioms axioms' → goal.alike goal' = true →
      ofProblem axioms' goal' = ofProblem axioms goal) := by
  refine ⟨rfl, ?_, ?_, ?_⟩
  · intro axioms' hperm
    have hsame : List.Forall₂ (Mirrors id Set.univ) axioms' axioms' :=
      List.forall₂_same.2 fun f _ => .of_alike f.alike_refl
    exact (ofProblem_eq (Set.injOn_id _) ⟨axioms', hperm, hsame⟩ (.of_alike goal.alike_refl)).symm
  · intro ρ hρ
    have hmirrors : ∀ f ∈ axioms ++ [goal],
        Mirrors ρ {x | x ∈ (varsOf (axioms ++ [goal])).toList} f (f.rename ρ) :=
      fun f hf => ⟨fun x hx => mem_varsOf.2 ⟨f, hf, hx⟩, alike_refl _⟩
    have hrenamed : List.Forall₂ (Mirrors ρ {x | x ∈ (varsOf (axioms ++ [goal])).toList})
        axioms (axioms.map (rename ρ)) :=
      List.forall₂_map_right_iff.2 (List.forall₂_same.2 fun f hf => hmirrors f (by simp [hf]))
    exact (ofProblem_eq hρ (.of_forall₂ hrenamed) (hmirrors goal (by simp))).symm
  · intro axioms' goal' halike hgoal
    have hmirrors := halike.imp fun _ _ => Mirrors.of_alike
    exact (ofProblem_eq (Set.injOn_id _) (.of_forall₂ hmirrors) (.of_alike hgoal)).symm

/-- A problem in three variables with its axioms swapped, with its variables renamed, one of them to
a name that another gave up, and with the sides of its conjunctions swapped. -/
theorem features_symmetric_conj :
    let axioms : List Formula := [.impl (.var "P") (.var "Q"), .conj (.var "P") (.var "R")]
    let goal : Formula := .conj (.var "Q") (.var "R")
    let shift : String → String := fun x => if x = "P" then "Q" else if x = "Q" then "S" else x
    ofProblem [.conj (.var "P") (.var "R"), .impl (.var "P") (.var "Q")] goal =
      ofProblem axioms goal ∧
    Set.InjOn shift {x | x ∈ (varsOf (axioms ++ [goal])).toList} ∧
    ofProblem [.impl (.var "Q") (.var "S"), .conj (.var "Q") (.var "R")]
      (.conj (.var "S") (.var "R")) = ofProblem axioms goal ∧
    ofProblem [.impl (.var "P") (.var "Q"), .conj (.var "R") (.var "P")]
      (.conj (.var "R") (.var "Q")) = ofProblem axioms goal := by
  intro axioms goal shift
  obtain ⟨-, hperm, hrename, halike⟩ := features_symmetric axioms goal
  have hvars : (varsOf (axioms ++ [goal])).toList = ["P", "Q", "R"] := by decide
  have hshift : Set.InjOn shift {x | x ∈ (varsOf (axioms ++ [goal])).toList} := by
    rw [hvars]
    exact fun x hx y hy => (by decide : ∀ x ∈ ["P", "Q", "R"], ∀ y ∈ ["P", "Q", "R"],
      shift x = shift y → x = y) x hx y hy
  exact ⟨hperm _ (.swap _ _ _), hshift, hrename shift hshift,
    halike _ _ (.cons (by decide) (.cons (by decide) .nil)) (by decide)⟩

/-- A renaming that makes one variable of two is seen. -/
example :
    let f : Formula := .impl (.var "P") (.var "Q")
    ofProblem [] (f.rename fun _ => "P") ≠ ofProblem [] f := by
  decide

end Features

end AnnealProver
