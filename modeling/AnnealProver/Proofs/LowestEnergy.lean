import Mathlib.Algebra.Order.Ring.Int
import Mathlib.Data.Prod.Lex
import AnnealProver.Sampling.Backend
import AnnealProver.Sampling.Decoding
import AnnealProver.Proofs.Derivations

/-!
# The sample that is decoded

Samples and energies come to the decoder in two lists.  It looks for the place of the lowest energy
in one of them and takes the sample at that place from the other, so its answer is right only if the
two lists go together.

**Order.**  Energies are doubles, and doubles that are numbers compare like their **ranks** in a
linear order (`Double.lt_iff_rank`, `Double.le_iff_rank`).  The two zeros are different doubles of
one rank.

**The search** goes through the energies once.  What it holds after each of them is the first lowest
of those seen so far (`FirstLowest.lower`, `FirstLowest.keep`), and so is what it holds at the end
(`lowestFrom_firstLowest`).

**The reply.**  A sampler **pairs** a sample with an energy by giving them the same place in its two
lists (`Reply.Pairs`).  The lists may be of different lengths, and a state without names is left out
together with its energy.  What the decoder gets are the pairs, each once and in the order of their
places (`sampleSet?_keeps`), so the first lowest of what it gets is the first lowest of the reply.
-/

namespace AnnealProver

/-! ## Doubles that are numbers -/

namespace Double

open Float.Model (UnpackedFloat)

/-- Where a number stands among all others: infinities outermost, zeros in the middle, and finite
numbers of one sign by exponent and mantissa. -/
def unpackedRank : UnpackedFloat → ℤ ×ₗ ℤ ×ₗ ℤ
  | .infinity .negative => toLex (-2, toLex (0, 0))
  | .finite .negative mantissa exponent _ => toLex (-1, toLex (-exponent, -mantissa))
  | .zero _ | .notANumber => toLex (0, toLex (0, 0))
  | .finite .positive mantissa exponent _ => toLex (1, toLex (exponent, mantissa))
  | .infinity .positive => toLex (2, toLex (0, 0))

/-- The rank of a double. -/
def rank (x : Float) : ℤ ×ₗ ℤ ×ₗ ℤ :=
  unpackedRank x.toModel.unpack

lemma compares_finite (m m' : ℕ) (e e' : ℤ) :
    ((compare e e').then (compare m m')).Compares (toLex (e, (m : ℤ))) (toLex (e', (m' : ℤ))) := by
  rcases lt_trichotomy e e' with he | rfl | he
  · simp [Int.compare_eq_lt.2 he, Ordering.Compares, Prod.Lex.toLex_lt_toLex, he]
  · rcases lt_trichotomy m m' with hm | rfl | hm
    · simp [Nat.compare_eq_lt.2 hm, Ordering.Compares, Prod.Lex.toLex_lt_toLex, hm]
    · simp [Ordering.Compares]
    · simp [Nat.compare_eq_gt.2 hm, Ordering.Compares, Prod.Lex.toLex_lt_toLex, hm]
  · simp [Int.compare_eq_gt.2 he, Ordering.Compares, Prod.Lex.toLex_lt_toLex, he]

lemma compare_unpacked {a b : UnpackedFloat} (ha : a.isNaN = false) (hb : b.isNaN = false) :
    ∃ o, a.compare b = some o ∧ o.Compares (unpackedRank a) (unpackedRank b) := by
  rcases a with (_ | _) | _ | _ | ⟨_ | _, m, e, hm⟩ <;>
    rcases b with (_ | _) | _ | _ | ⟨_ | _, m', e', hm'⟩ <;> try contradiction
  all_goals
    refine ⟨_, rfl, ?_⟩
    dsimp only [unpackedRank]
  case finite.positive.finite.positive =>
    have h := compares_finite m m' e e'
    cases ho : (compare e e').then (compare m m') <;>
      simpa [ho, Ordering.Compares, Prod.Lex.toLex_lt_toLex] using h
  case finite.negative.finite.negative =>
    have h := compares_finite m m' e e'
    rw [Ordering.compares_swap]
    cases ho : (compare e e').then (compare m m') <;>
      simpa [ho, Ordering.Compares, Prod.Lex.toLex_lt_toLex, eq_comm] using h
  -- everywhere else sign and kind decide
  all_goals simp [Ordering.Compares, Prod.Lex.toLex_lt_toLex, compare]

variable {x y : Float}

lemma lt_iff_rank (hx : x.isNaN = false) (hy : y.isNaN = false) : x < y ↔ rank x < rank y := by
  obtain ⟨o, ho, hcompares⟩ := compare_unpacked hx hy
  have hlt : x < y ↔ x.toModel.unpack.lt y.toModel.unpack = true := decide_eq_true_iff
  rw [hlt, UnpackedFloat.lt, ho, rank, rank, ← hcompares.eq_lt]
  simp

lemma le_iff_rank (hx : x.isNaN = false) (hy : y.isNaN = false) : x ≤ y ↔ rank x ≤ rank y := by
  obtain ⟨o, ho, hcompares⟩ := compare_unpacked hx hy
  have hle : x ≤ y ↔ x.toModel.unpack.le y.toModel.unpack = true := decide_eq_true_iff
  rw [hle, UnpackedFloat.le, ho, rank, rank, ← hcompares.ne_gt]
  exact Ordering.isLE_iff_ne_gt

end Double

/-! ## The first of the lowest energies -/

section Search

open Double

/-- The energy stands at the place, none is lower, and those before it are higher. -/
structure FirstLowest (energies : List Float) (place : ℕ) (energy : Float) : Prop where
  found : energies[place]? = some energy
  least : ∀ (j : ℕ) (other : Float), energies[j]? = some other → rank energy ≤ rank other
  first : ∀ (j : ℕ) (other : Float), energies[j]? = some other → j < place →
    rank energy < rank other

variable {energies : List Float} {place : ℕ} {energy e : Float}

/-- An energy that is lower than the lowest so far is lower than all so far. -/
lemma FirstLowest.lower (h : FirstLowest energies place energy) (he : rank e < rank energy) :
    FirstLowest (energies ++ [e]) energies.length e where
  found := by simp
  least j other hother := by
    rcases getElem?_concat_cases hother with ⟨-, hother⟩ | ⟨-, rfl⟩
    · exact (he.trans_le (h.least j other hother)).le
    · exact le_rfl
  first j other hother hj := by
    rcases getElem?_concat_cases hother with ⟨-, hother⟩ | ⟨rfl, -⟩
    · exact he.trans_le (h.least j other hother)
    · exact absurd hj (lt_irrefl _)

/-- An energy that is not lower changes nothing, also if it is as low. -/
lemma FirstLowest.keep (h : FirstLowest energies place energy) (he : ¬ rank e < rank energy) :
    FirstLowest (energies ++ [e]) place energy where
  found := by rw [List.getElem?_append_left (List.getElem?_eq_some_iff.1 h.found).1, h.found]
  least j other hother := by
    rcases getElem?_concat_cases hother with ⟨-, hother⟩ | ⟨-, rfl⟩
    · exact h.least j other hother
    · exact not_lt.1 he
  first j other hother hj := by
    rcases getElem?_concat_cases hother with ⟨-, hother⟩ | ⟨rfl, -⟩
    · exact h.first j other hother hj
    · exact absurd hj (not_lt.2 (List.getElem?_eq_some_iff.1 h.found).1.le)

/-- **The search holds the first lowest energy at every point**, so it does at the end. -/
lemma lowestFrom_firstLowest {rest : List Float} (h : FirstLowest energies place energy)
    (hnumbers : ∀ e ∈ energies ++ rest, e.isNaN = false) :
    FirstLowest (energies ++ rest) (lowestFrom place energy energies.length rest).1
      (lowestFrom place energy energies.length rest).2 := by
  induction rest generalizing energies place energy with
  | nil => simpa [lowestFrom] using h
  | cons e rest ih =>
      have henergy : energy.isNaN = false :=
        hnumbers energy (List.mem_append_left _ (List.mem_of_getElem? h.found))
      have hlt : e < energy ↔ rank e < rank energy := lt_iff_rank (hnumbers e (by simp)) henergy
      have hlength : energies.length + 1 = (energies ++ [e]).length := by simp
      rw [List.append_cons] at hnumbers ⊢
      rw [lowestFrom, hlength]
      split_ifs with he
      · exact ih (h.lower (hlt.1 he)) hnumbers
      · exact ih (h.keep fun hrank => he (hlt.2 hrank)) hnumbers

/-- Among numbers there is a first lowest one, and the search finds it. -/
lemma exists_lowest? (hne : energies ≠ []) (hnumbers : ∀ e ∈ energies, e.isNaN = false) :
    ∃ place energy, lowest? energies = some (place, energy) ∧
      FirstLowest energies place energy := by
  cases energies with
  | nil => exact absurd rfl hne
  | cons e rest =>
      have hsingle : FirstLowest [e] 0 e := by
        refine ⟨rfl, fun j other hother => ?_, fun j other _ hj => absurd hj (Nat.not_lt_zero j)⟩
        rw [List.getElem?_singleton] at hother
        split_ifs at hother
        rw [Option.some.inj hother]
      exact ⟨_, _, rfl, lowestFrom_firstLowest hsingle hnumbers⟩

end Search

/-! ## What a sampler pairs -/

section Places

variable {α β : Type} (f : α → Option β) (as : List α)

/-- The places of a list at which something can be made of the element, with what is made of it. -/
def placed : List (ℕ × β) :=
  as.zipIdx.filterMap fun p => (f p.1).map fun b => (p.2, b)

lemma mem_placed {i : ℕ} {b : β} : (i, b) ∈ placed f as ↔ ∃ a, as[i]? = some a ∧ f a = some b := by
  simp only [placed, List.mem_filterMap, Option.map_eq_some_iff, Prod.mk.injEq, Prod.exists,
    List.mk_mem_zipIdx_iff_getElem?]
  constructor
  · rintro ⟨a, j, ha, c, hc, rfl, rfl⟩
    exact ⟨a, ha, hc⟩
  · rintro ⟨a, ha, hb⟩
    exact ⟨a, i, ha, b, hb, rfl, rfl⟩

lemma pairwise_placed : (placed f as).Pairwise fun p q => p.1 < q.1 := by
  have hplaces : as.zipIdx.Pairwise fun p q => p.2 < q.2 := by
    rw [← List.pairwise_map, List.zipIdx_map_snd]
    exact List.pairwise_lt_range'
  refine hplaces.filterMap _ fun p q hpq b hb c hc => ?_
  obtain ⟨-, -, rfl⟩ := Option.map_eq_some_iff.1 hb
  obtain ⟨-, -, rfl⟩ := Option.map_eq_some_iff.1 hc
  exact hpq

lemma map_snd_placed : (placed f as).map (·.2) = as.filterMap f := by
  have hfst : as.filterMap f = as.zipIdx.filterMap (f ∘ Prod.fst) := by
    rw [← List.filterMap_map, List.zipIdx_map_fst]
  rw [placed, List.map_filterMap, hfst]
  congr 1
  funext p
  cases hp : f p.1 <;> simp [hp]

/-- Either something can be made of every element, or nothing of the list. -/
lemma mapM_option : as.mapM f =
    if as.all fun a => (f a).isSome then some (as.filterMap f) else none := by
  induction as with
  | nil => rfl
  | cons a as ih =>
      rw [List.mapM_cons, ih]
      cases ha : f a with
      | none => simp [ha]
      | some b => by_cases hall : (as.all fun a => (f a).isSome) = true <;> simp [ha, hall]

end Places

section Replies

variable {ε : Type} {reply : Reply ε} {sampler : Sampler} {reads : Int} {set : SampleSet ε}

/-- The sample and the energy to which a sampler gives the same place: a line of the matrix or a
state with names, and the energy with its number.  A list that is missing has nothing in it. -/
inductive Reply.Pairs (reply : Reply ε) : Sampler → ℕ → Row ε → Prop
  | line {i : ℕ} {line : List Number} {energy : ε}
      (hline : reply.matrix.lines[i]? = some line)
      (henergy : reply.matrix.energies[i]? = some energy) :
      Pairs reply .neal i
        ⟨.ofList ((reply.matrix.columns.zip line).map fun p => (p.1, p.2.truncate)), energy⟩
  | state {i : ℕ} {values : NameTable Number} {energy : ε}
      (hstate : (reply.states.states.getD [])[i]? = some (.named values))
      (henergy : (reply.states.energies.getD [])[i]? = some energy) :
      Pairs reply .openjij i ⟨⟨values.entries.map fun p => (p.1, p.2.truncate)⟩, energy⟩

/-- The energies that a sampler gives. -/
def Reply.energies (reply : Reply ε) : Sampler → List ε
  | .neal => reply.matrix.energies
  | .openjij => reply.states.energies.getD []
  | .exact => reply.best.toList.map (·.energy)

lemma Reply.Pairs.energy_mem {i : ℕ} {row : Row ε} (h : reply.Pairs sampler i row) :
    row.energy ∈ reply.energies sampler := by
  cases h with
  | line _ henergy | state _ henergy => exact List.mem_of_getElem? henergy

/-- The set holds what the sampler pairs, each pair once and in the order of the places. -/
structure SampleSet.Keeps (set : SampleSet ε) (reply : Reply ε) (sampler : Sampler)
    (kept : List (ℕ × Row ε)) : Prop where
  inOrder : kept.Pairwise fun p q => p.1 < q.1
  pairs : ∀ i row, (i, row) ∈ kept ↔ reply.Pairs sampler i row
  samples : set.samples = kept.map fun p => p.2.sample
  energies : set.energies = kept.map fun p => p.2.energy

/-- What is made of the elements of a list is kept if it is what the sampler pairs. -/
lemma SampleSet.keeps_placed {α : Type} {f : α → Option (Row ε)} {as : List α}
    (hset : set.samples = (as.filterMap f).map (·.sample))
    (henergies : set.energies = (as.filterMap f).map (·.energy))
    (hpairs : ∀ i row, (∃ a, as[i]? = some a ∧ f a = some row) ↔ reply.Pairs sampler i row) :
    set.Keeps reply sampler (placed f as) where
  inOrder := pairwise_placed f as
  pairs i row := (mem_placed f as).trans (hpairs i row)
  samples := by rw [hset, ← map_snd_placed, List.map_map]; rfl
  energies := by rw [henergies, ← map_snd_placed, List.map_map]; rfl

/-- What is made of a line of a matrix and an energy. -/
def Matrix.row? (m : Matrix ε) (p : List Number × ε) : Option (Row ε) :=
  (Sample.ofLine? m.columns p.1).map fun sample => ⟨sample, p.2⟩

lemma Matrix.row?_eq {m : Matrix ε} {p : List Number × ε} :
    m.row? p = if m.columns.length ≤ p.1.length then
      some ⟨.ofList ((m.columns.zip p.1).map fun q => (q.1, q.2.truncate)), p.2⟩ else none := by
  rw [row?]
  cases hcolumns : m.columns with
  | nil => rfl
  | cons x columns =>
      rw [Sample.ofLine?]
      · simp only [← not_lt, ite_not]
        split_ifs <;> rfl
      · simp

/-- The rows of a matrix are made of its lines and energies, if every line is long enough. -/
lemma Matrix.rows?_eq {m : Matrix ε} : m.rows? =
    if (m.lines.zip m.energies).all fun p => (m.row? p).isSome then
      some ((m.lines.zip m.energies).filterMap m.row?) else none :=
  mapM_option m.row? _

/-- What is made of a state and an energy. -/
def State.row? (p : State × ε) : Option (Row ε) :=
  match p.1 with
  | .named values => some ⟨⟨values.entries.map fun q => (q.1, q.2.truncate)⟩, p.2⟩
  | .unnamed => none

lemma States.getD_rows? {s : States ε} : s.rows?.getD [] =
    ((s.states.getD []).zip (s.energies.getD [])).filterMap State.row? := by
  rcases s with ⟨_ | states, _ | energies⟩ <;> simp only [rows?, Option.getD, List.zip_nil_left,
    List.zip_nil_right, List.filterMap_nil]
  congr 1
  funext p
  rcases p with ⟨_ | _, energy⟩ <;> rfl

/-- The reply of a matrix can be used exactly if the lines that have an energy are long enough. -/
lemma exists_sampleSet?_neal :
    (∃ set, Sampler.neal.sampleSet? reads reply = some set) ↔
      ∀ (i : ℕ) (line : List Number), reply.matrix.lines[i]? = some line →
        i < reply.matrix.energies.length → reply.matrix.columns.length ≤ line.length := by
  have hall : (∃ set, Sampler.neal.sampleSet? reads reply = some set) ↔
      ∀ p ∈ reply.matrix.lines.zip reply.matrix.energies,
        reply.matrix.columns.length ≤ p.1.length := by
    simp [Sampler.sampleSet?, Matrix.rows?_eq, Matrix.row?_eq]
  rw [hall]
  constructor
  · intro h i line hline hi
    have hzip : (reply.matrix.lines.zip reply.matrix.energies)[i]? = some (line, _) :=
      List.getElem?_zip_eq_some.2 ⟨hline, List.getElem?_eq_getElem hi⟩
    exact h _ (List.mem_of_getElem? hzip)
  · intro h p hp
    obtain ⟨i, hi⟩ := List.getElem?_of_mem hp
    obtain ⟨hline, henergy⟩ := List.getElem?_zip_eq_some.1 hi
    exact h i p.1 hline (List.getElem?_eq_some_iff.1 henergy).1

/-- **The decoder gets the pairs of the reply.** -/
lemma sampleSet?_keeps (hsampler : sampler ≠ .exact)
    (hset : sampler.sampleSet? reads reply = some set) : ∃ kept, set.Keeps reply sampler kept := by
  cases sampler with
  | exact => exact absurd rfl hsampler
  | neal =>
      have hlong := exists_sampleSet?_neal.1 ⟨set, hset⟩
      simp only [Sampler.sampleSet?, Option.map_eq_some_iff, Matrix.rows?_eq,
        Option.ite_none_right_eq_some, Option.some.injEq] at hset
      obtain ⟨rows, ⟨-, rfl⟩, rfl⟩ := hset
      refine ⟨_, SampleSet.keeps_placed rfl rfl fun i row => ⟨?_, ?_⟩⟩
      · rintro ⟨⟨line, energy⟩, hzip, hrow⟩
        obtain ⟨hline, henergy⟩ := List.getElem?_zip_eq_some.1 hzip
        rw [Matrix.row?_eq, Option.ite_none_right_eq_some] at hrow
        obtain rfl := Option.some.inj hrow.2
        exact .line hline henergy
      · rintro ⟨hline, henergy⟩
        have hwide := hlong i _ hline (List.getElem?_eq_some_iff.1 henergy).1
        exact ⟨(_, _), List.getElem?_zip_eq_some.2 ⟨hline, henergy⟩,
          by rw [Matrix.row?_eq, if_pos hwide]⟩
  | openjij =>
      obtain rfl := Option.some.inj hset
      rw [States.getD_rows?]
      refine ⟨_, SampleSet.keeps_placed rfl rfl fun i row => ⟨?_, ?_⟩⟩
      · rintro ⟨⟨state, energy⟩, hzip, hrow⟩
        obtain ⟨hstate, henergy⟩ := List.getElem?_zip_eq_some.1 hzip
        cases state with
        | unnamed => cases hrow
        | named values =>
            obtain rfl := Option.some.inj hrow
            exact .state hstate henergy
      · rintro (_ | ⟨hstate, henergy⟩)
        exact ⟨(_, _), List.getElem?_zip_eq_some.2 ⟨hstate, henergy⟩, rfl⟩

end Replies

/-! ## The pair that is decoded -/

section Decoding

open Double

variable {kept : List (ℕ × Row Float)} {place i : ℕ} {row : Row Float}

/-- Places in the reply are in the order of places among the pairs that are kept, so what comes
first there comes first in the reply. -/
lemma FirstLowest.among_kept (h : FirstLowest (kept.map fun p => p.2.energy) place row.energy)
    (hplace : kept[place]? = some (i, row)) (hinOrder : kept.Pairwise fun p q => p.1 < q.1)
    {j : ℕ} {other : Row Float} (hother : (j, other) ∈ kept) :
    rank row.energy ≤ rank other.energy ∧ (j < i → rank row.energy < rank other.energy) := by
  obtain ⟨k, hk⟩ := List.getElem?_of_mem hother
  have henergy : (kept.map fun p => p.2.energy)[k]? = some other.energy := by
    rw [List.getElem?_map, hk]
    rfl
  refine ⟨h.least k _ henergy, fun hj => h.first k _ henergy ?_⟩
  obtain ⟨hplaceLt, hplaceEq⟩ := List.getElem?_eq_some_iff.1 hplace
  obtain ⟨hkLt, hkEq⟩ := List.getElem?_eq_some_iff.1 hk
  rcases lt_trichotomy k place with hlt | rfl | hgt
  · exact hlt
  · have hsame : (i, row) = (j, other) := hplaceEq.symm.trans hkEq
    exact absurd hj (by simp [(Prod.mk.inj hsame).1])
  · have hafter := List.pairwise_iff_getElem.1 hinOrder place k hplaceLt hkLt hgt
    rw [hplaceEq, hkEq] at hafter
    exact absurd hj hafter.not_gt

/-- Of pairs whose energies are numbers the first lowest one is decoded. -/
lemma ofSamples?_kept (hne : kept ≠ []) (hnumbers : ∀ p ∈ kept, p.2.energy.isNaN = false)
    (e : Encoder) (axiomBits : List String) (goalBit : String) :
    ∃ place i row, kept[place]? = some (i, row) ∧
      FirstLowest (kept.map fun p => p.2.energy) place row.energy ∧
      Decoded.ofSamples? e axiomBits goalBit (kept.map fun p => p.2.sample)
          (kept.map fun p => p.2.energy) =
        some (.ofSample e axiomBits goalBit kept.length place row.sample row.energy) := by
  have hsome : (kept.map fun p => p.2.energy) ≠ [] := by simpa using hne
  obtain ⟨place, energy, hlowest, hfirst⟩ :=
    exists_lowest? hsome (List.forall_mem_map.2 hnumbers)
  have hfound := hfirst.found
  rw [List.getElem?_map, Option.map_eq_some_iff] at hfound
  obtain ⟨⟨i, row⟩, hplace, rfl⟩ := hfound
  refine ⟨place, i, row, hplace, hfirst, ?_⟩
  simp [Decoded.ofSamples?, hne, hlowest, hplace]

/-- **What is decoded is the best that the sampler found.**  A reply can be used unless a line of
its matrix is too short.  Then there are as many energies as samples, and what is kept are the pairs
of the reply, in their order: all lines that have an energy, or all states with names that have one.
Decoding these does not fail.  Without pairs there is nothing to decode.  Otherwise sample and
energy are those of one pair, no pair has a lower energy, and those at earlier places have a higher
one. -/
theorem decode_takes_first_lowest {sampler : Sampler} (hsampler : sampler ≠ .exact)
    (reply : Reply Float) (hnumbers : ∀ energy ∈ reply.energies sampler, energy.isNaN = false)
    (reads : Int) (e : Encoder) (axiomBits : List String) (goalBit : String) :
    ((∃ set, sampler.sampleSet? reads reply = some set) ↔
      (sampler = .neal → ∀ (i : ℕ) (line : List Number), reply.matrix.lines[i]? = some line →
        i < reply.matrix.energies.length → reply.matrix.columns.length ≤ line.length)) ∧
    ∀ set, sampler.sampleSet? reads reply = some set →
      set.energies.length = set.samples.length ∧
      (∃ kept, set.Keeps reply sampler kept) ∧
      ∃ d, Decoded.ofSamples? e axiomBits goalBit set.samples set.energies = some d ∧
        ((d = .nothing ∧ ∀ i row, ¬ reply.Pairs sampler i row) ∨
          ∃ i row, reply.Pairs sampler i row ∧ d.sample = row.sample ∧ d.energy = some row.energy ∧
            ∀ j other, reply.Pairs sampler j other →
              row.energy ≤ other.energy ∧ (j < i → row.energy < other.energy)) := by
  refine ⟨?_, fun set hset => ?_⟩
  · cases sampler with
    | exact => exact absurd rfl hsampler
    | neal => exact exists_sampleSet?_neal.trans (by simp)
    | openjij => exact iff_of_true ⟨_, rfl⟩ (by simp)
  obtain ⟨kept, hkept⟩ := sampleSet?_keeps hsampler hset
  have hnumber : ∀ i row, reply.Pairs sampler i row → row.energy.isNaN = false :=
    fun i row hpair => hnumbers _ hpair.energy_mem
  refine ⟨by simp [hkept.samples, hkept.energies], ⟨kept, hkept⟩, ?_⟩
  rw [hkept.samples, hkept.energies]
  by_cases hne : kept = []
  · refine ⟨.nothing, by simp [hne, Decoded.ofSamples?], Or.inl ⟨rfl, fun i row hpair => ?_⟩⟩
    have hmem := (hkept.pairs i row).2 hpair
    simp [hne] at hmem
  · obtain ⟨place, i, row, hplace, hfirst, hdecoded⟩ := ofSamples?_kept hne
      (fun p hp => hnumber p.1 p.2 ((hkept.pairs p.1 p.2).1 hp)) e axiomBits goalBit
    have hpair : reply.Pairs sampler i row := (hkept.pairs i row).1 (List.mem_of_getElem? hplace)
    refine ⟨_, hdecoded, Or.inr ⟨i, row, hpair, rfl, rfl, fun j other hother => ?_⟩⟩
    have hrow := hnumber i row hpair
    have hnumberOther := hnumber j other hother
    rw [le_iff_rank hrow hnumberOther, lt_iff_rank hrow hnumberOther]
    exact hfirst.among_kept hplace hkept.inOrder ((hkept.pairs j other).2 hother)

/-- A state without names has the lowest energy, and of the two zeros the one that comes first is
taken. -/
theorem decode_takes_first_lowest_zeros :
    let reply : Reply Float :=
      { states :=
          { states := some [.named ⟨[("P", .whole 1)]⟩, .unnamed, .named ⟨[("P", .whole 0)]⟩,
              .named ⟨[("Q", .whole 1)]⟩]
            energies := some [2.5, -7, 0, -0.0, -9] } }
    Sampler.openjij ≠ .exact ∧
    (∀ energy ∈ reply.energies .openjij, energy.isNaN = false) ∧
    ∃ set d, Sampler.openjij.sampleSet? 4 reply = some set ∧
      Decoded.ofSamples? {} ["P"] "Q" set.samples set.energies = some d ∧
      d.sample.entries = [("P", 0)] ∧
      ∃ i row, reply.Pairs .openjij i row ∧ d.sample = row.sample ∧ d.energy = some row.energy ∧
        ∀ j other, reply.Pairs .openjij j other →
          row.energy ≤ other.energy ∧ (j < i → row.energy < other.energy) := by
  intro reply
  have hsampler : Sampler.openjij ≠ .exact := by decide
  have hnumbers : ∀ energy ∈ reply.energies .openjij, energy.isNaN = false := by decide
  obtain ⟨-, hdecode⟩ := decode_takes_first_lowest hsampler reply hnumbers 4 {} ["P"] "Q"
  obtain ⟨-, -, d, hd, hcases⟩ := hdecode _ rfl
  have hsample : d.sample.entries = [("P", 0)] := by
    obtain rfl := Option.some.inj hd
    rfl
  refine ⟨hsampler, hnumbers, _, d, rfl, hd, hsample, ?_⟩
  rcases hcases with ⟨-, hnone⟩ | hlowest
  · exact absurd (.state rfl rfl) (hnone 0 _)
  · exact hlowest

end Decoding

end AnnealProver
