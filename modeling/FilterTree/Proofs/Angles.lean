import FilterTree.Builtin.Misorientation
import FilterTree.Proofs.Checks
import FilterTree.Proofs.Directions

/-!
# Angles, marks and faults

For a feature and the number of one that it touches three things can come out: a
fault, a mark, or an angle. Which of them is a matter of four tables, and `fault?`
and `Undefined` say so without following the order in which the program looks
things up. From there on it is enough that every look-up answers with the fault
if there is one and with an entry as described if not (`Answers`): the first
fault of a list is what a list answers with, and so is the first fault of all
lists in the order of the features. A cancelled run is the exception. It stops
looking, so it finds no fault behind the feature it has come to.

What an angle is lies in the orientations and in the symmetries. An orientation is
a row's components divided by their length, and so it has the direction of the reals that
they are (`Oriented`); an angle belongs to one of the symmetries, and no other has a
smaller one (`Least`). Angles are not below zero and the mark is, which tells them apart.
-/

namespace FilterTree

/-! ## The least angle -/

namespace Quaternion

variable {q : Quaternion}

theorem angle_range : 0 ≤ q.angle ∧ q.angle ≤ halfTurn := by
  have hnone : (0 : Float) ≤ 0 ∧ (0 : Float) ≤ halfTurn := by decide
  have hhalf : (0 : Float) ≤ halfTurn ∧ halfTurn ≤ halfTurn := by decide
  rw [angle]
  split
  · rw [cutOff]
    split
    · next h => exact h
    · exact hhalf
  · exact hnone

theorem angle_le_self : q.angle ≤ q.angle :=
  Float.le_refl_of_le angle_range.1

end Quaternion

/-- The angle from one orientation to another, with a symmetry of the crystal in between. -/
def turn (p q operator : Quaternion) : Float := (p.conjugate * q * operator).angle

/-- The angle that belongs to one of the symmetries, and to none a smaller one. -/
structure Least (operators : List Quaternion) (p q : Quaternion) (a : Float) : Prop where
  attained : ∃ operator ∈ operators, a = turn p q operator
  least : ∀ operator ∈ operators, a ≤ turn p q operator

theorem least_misorientation {operators : List Quaternion} (h : operators ≠ [])
    {p q : Quaternion} : ∃ a, Least operators p q a ∧
      misorientation operators p q = a * (180 / Quaternion.halfTurn) := by
  have hfold : ∀ (operators : List Quaternion) (best : Float), best ≤ best →
      ∃ a, operators.foldl (fun best operator =>
          if turn p q operator < best then turn p q operator else best) best = a ∧
        (a = best ∨ ∃ operator ∈ operators, a = turn p q operator) ∧ a ≤ best ∧
        ∀ operator ∈ operators, a ≤ turn p q operator := by
    intro operators
    induction operators with
    | nil => exact fun best hbest => ⟨best, rfl, .inl rfl, hbest, fun _ hmem => nomatch hmem⟩
    | cons operator rest ih =>
        intro best hbest
        rw [List.foldl_cons]
        by_cases hless : turn p q operator < best
        · rw [if_pos hless]
          obtain ⟨a, hfold, hattained, hle, hleast⟩ := ih _ Quaternion.angle_le_self
          refine ⟨a, hfold, .inr ?_, Float.le_trans hle (Float.le_of_lt hless), ?_⟩
          · rcases hattained with rfl | ⟨other, hother, rfl⟩
            · exact ⟨operator, List.mem_cons_self, rfl⟩
            · exact ⟨other, List.mem_cons_of_mem _ hother, rfl⟩
          · exact List.forall_mem_cons.mpr ⟨hle, hleast⟩
        · rw [if_neg hless]
          obtain ⟨a, hfold, hattained, hle, hleast⟩ := ih best hbest
          have hnext : best ≤ turn p q operator :=
            Float.le_of_not_lt hbest Quaternion.angle_le_self hless
          refine ⟨a, hfold, hattained.imp id ?_, hle, ?_⟩
          · exact fun ⟨other, hother, heq⟩ => ⟨other, List.mem_cons_of_mem _ hother, heq⟩
          · exact List.forall_mem_cons.mpr ⟨Float.le_trans hle hnext, hleast⟩
  obtain ⟨a, hmin, hattained, -, hleast⟩ := hfold operators (1 / 0) (by decide)
  refine ⟨a, ⟨hattained.resolve_left ?_, hleast⟩, congrArg (· * _) hmin⟩
  -- infinity is more than half a turn
  rintro rfl
  obtain ⟨operator, hmem⟩ := List.exists_mem_of_ne_nil operators h
  have hfar : ¬ (1 / 0 : Float) ≤ Quaternion.halfTurn := by decide
  exact hfar (Float.le_trans (hleast operator hmem) Quaternion.angle_range.2)

theorem Least.not_neg {operators : List Quaternion} {p q : Quaternion} {a : Float}
    (h : Least operators p q a) : ¬ a < 0 := by
  obtain ⟨operator, -, rfl⟩ := h.attained
  exact Float.not_lt_of_le Quaternion.angle_range.1

theorem LaueClass.operators_ne_nil (c : LaueClass) : c.operators ≠ [] := by
  cases c <;> simp [operators, cubeRotations, Quaternion.aboutZ]

namespace Builtin.Misorientation

/-! ## What a look-up answers -/

/-- For every feature and each that it touches, in their order, something is listed that fits. -/
def Listed (R : Nat → Nat → Float32 → Prop) (first : Nat) (lists : List (List Int32))
    (angles : List (List Float32)) : Prop :=
  List.Forall₂ (fun (neighbors, i) => List.Forall₂ (fun n x => R i n.toInt.toNat x) neighbors)
    (lists.zipIdx first) angles

namespace Listed

variable {R R' : Nat → Nat → Float32 → Prop} {first : Nat} {lists : List (List Int32)}
  {angles : List (List Float32)}

theorem length_eq (h : Listed R first lists angles) : angles.length = lists.length := by
  rw [← List.Forall₂.length_eq h, List.length_zipIdx]

theorem row (h : Listed R 0 lists angles) {i : Nat} {neighbors : List Int32}
    {entries : List Float32} (hi : lists[i]? = some neighbors)
    (hentries : angles[i]? = some entries) :
    List.Forall₂ (fun n x => R i n.toInt.toNat x) neighbors entries := by
  obtain ⟨hlt, rfl⟩ := List.getElem?_eq_some_iff.mp hi
  obtain ⟨hlt', rfl⟩ := List.getElem?_eq_some_iff.mp hentries
  have hrow := (List.forall₂_iff_get.mp h).2 i (by rwa [List.length_zipIdx]) hlt'
  simpa using hrow

theorem imp (h : Listed R first lists angles) (hR : ∀ i j x, R i j x → R' i j x) :
    Listed R' first lists angles :=
  List.Forall₂.imp (fun _ _ hrow => hrow.imp fun _ _ => hR _ _ _) h

end Listed

/-- The rows that the angles are computed from. -/
structure Rows where
  codes : Array UInt32
  orientations : Array Float32
  phases : Array Int32

namespace Rows

variable (r : Rows)

/-- What the program makes of the rows. -/
def inputs : Inputs := ⟨r.orientations, r.phases, r.codes.map fun code => .ofCode code.toNat⟩

/-- The phase of a feature; behind the end of the row it is zero, which is no phase. -/
def phase (i : Nat) : Int := (r.phases[i]?.map Int32.toInt).getD 0

/-- The structure code of a phase. -/
def code? (phase : Int) : Option Nat := r.codes[phase.toNat]?.map UInt32.toNat

/-- The components of the orientation of a feature, as numbers of 64 bits. -/
def components? (i : Nat) : Option Quaternion := do
  let x ← r.orientations[4 * i]?
  let y ← r.orientations[4 * i + 1]?
  let z ← r.orientations[4 * i + 2]?
  let w ← r.orientations[4 * i + 3]?
  return ⟨Numeral.widened x, Numeral.widened y, Numeral.widened z, Numeral.widened w⟩

/-- The components of the orientation of a feature are finite, and they are these numbers. -/
def Finite (i : Nat) (V : Fin 4 → ℚ) : Prop :=
  ∀ k : Fin 4, ∃ x, r.orientations[4 * i + k]? = some x ∧ Numeral.value32? x = some (V k)

/-- The length of the orientation of a feature. -/
def length? (i : Nat) : Option Float :=
  (r.components? i).map fun v => (v.x * v.x + v.y * v.y + v.z * v.z + v.w * v.w).sqrt

/-- The orientation of a feature is long enough to have a direction. -/
def HasDirection (i : Nat) : Prop := ∃ l ∈ r.length? i, Quaternion.leastLength < l

/-- The orientation of a feature with the length of one. -/
structure Oriented (i : Nat) (p : Quaternion) : Prop where
  long : r.HasDirection i
  quotients : ∀ v ∈ r.components? i, ∀ l ∈ r.length? i, ∀ k, p.component k = v.component k / l
  directed : ∀ V, r.Finite i V → Quaternion.Directed (fun k => V k) p

/-- What is wrong with the crystal of a feature's phase, if anything is. -/
def crystalFault? (i : Nat) : Option Failure :=
  match r.code? (r.phase i) with
  | none => some (Error.phaseWithoutStructure i (r.phase i)).failure
  | some code =>
    if code = unknownCode ∨ (LaueClass.ofCode? code).isSome then none
    else some (Error.unsupportedStructure code (r.phase i)).failure

/-- What is wrong with a feature and the number of one that it touches, if anything is. -/
def fault? (i : Nat) (n : Int32) : Option Failure :=
  if n.toInt < 0 ∨ r.phases.size ≤ n.toInt then
    some (Error.unknownNeighbor i n.toInt r.phases.size).failure
  else if 0 < r.phase i ∧ r.phase i = r.phase n.toInt.toNat then r.crystalFault? i
  else none

/-- The first fault, features in order and for each of them those that it touches in order. -/
def faultFrom? (first : Nat) (lists : List (List Int32)) : Option Failure :=
  (lists.zipIdx first).findSome? fun (neighbors, i) => neighbors.findSome? (r.fault? i)

/-- A failure is the first fault of some feature. -/
def Faulty (lists : List (List Int32)) (f : Failure) : Prop :=
  ∃ (i : Nat) (neighbors : List Int32), lists[i]? = some neighbors ∧
    neighbors.findSome? (r.fault? i) = some f

/-- No angle is defined between two features. -/
def Undefined (i j : Nat) : Prop :=
  r.phase i ≤ 0 ∨ r.phase i ≠ r.phase j ∨ r.code? (r.phase i) = some unknownCode ∨
    ¬ r.HasDirection i ∨ ¬ r.HasDirection j

/-- What is listed for a feature and one that it touches. -/
inductive Entry (i j : Nat) : Float32 → Prop
  | undefined (h : r.Undefined i j) : Entry i j undefinedMark
  | angle {code : Nat} {c : LaueClass} {p q : Quaternion} {a : Float} (h : ¬ r.Undefined i j)
      (hcode : r.code? (r.phase i) = some code) (hc : LaueClass.ofCode? code = some c)
      (hp : r.Oriented i p) (hq : r.Oriented j q) (ha : Least c.operators p q a) :
      Entry i j (Numeral.narrowed (a * (180 / Quaternion.halfTurn)))

variable {r} {i j : Nat} {n : Int32}

theorem Entry.not_neg {x : Float32} (h : r.Entry i j x) (hdefined : ¬ r.Undefined i j) :
    ¬ x < 0 := by
  cases h with
  | undefined h => exact absurd h hdefined
  | angle _ _ _ _ _ ha =>
      exact Float.not_narrowed_lt_zero (Float.not_mul_lt_zero ha.not_neg (by decide))

theorem Finite.stands {V : Fin 4 → ℚ} (h : r.Finite i V) :
    ∃ v, r.components? i = some v ∧ v.Stands (fun k => V k) := by
  obtain ⟨x, hx, hx'⟩ := h 0
  obtain ⟨y, hy, hy'⟩ := h 1
  obtain ⟨z, hz, hz'⟩ := h 2
  obtain ⟨w, hw, hw'⟩ := h 3
  have hcomponents : r.components? i =
      some ⟨Numeral.widened x, Numeral.widened y, Numeral.widened z, Numeral.widened w⟩ := by
    rw [components?, show r.orientations[4 * i]? = some x from hx,
      show r.orientations[4 * i + 1]? = some y from hy,
      show r.orientations[4 * i + 2]? = some z from hz,
      show r.orientations[4 * i + 3]? = some w from hw]
    rfl
  refine ⟨_, hcomponents, ⟨fun k => ?_, fun k => ?_⟩⟩
  · fin_cases k
    · exact (Numeral.stands_widened hx').1
    · exact (Numeral.stands_widened hy').1
    · exact (Numeral.stands_widened hz').1
    · exact (Numeral.stands_widened hw').1
  · obtain ⟨x, -, hx⟩ := h k
    exact (Numeral.stands_widened hx).2

theorem length?_of_components {v : Quaternion} (h : r.components? i = some v) :
    r.length? i = some v.length := by
  rw [length?, h]
  rfl

theorem hasDirection_iff {v : Quaternion} (h : r.components? i = some v) :
    r.HasDirection i ↔ Quaternion.leastLength < v.length := by
  rw [HasDirection, length?_of_components h]
  exact ⟨fun ⟨_, hl, hlong⟩ => Option.some.inj hl ▸ hlong, fun hlong => ⟨_, rfl, hlong⟩⟩

/-- Whether finite components have a direction is a matter of their length as reals. -/
theorem Finite.hasDirection_iff {V : Fin 4 → ℚ} (h : r.Finite i V) :
    ∃ l, |l - Quaternion.magnitude (fun k => V k)| ≤
        2⁻¹ ^ 51 * Quaternion.magnitude (fun k => V k) ∧
      (r.HasDirection i ↔ 2⁻¹ ^ 52 < l) := by
  obtain ⟨v, hv, hstands⟩ := h.stands
  obtain ⟨l, hnear, hlong⟩ := hstands.length_near
  exact ⟨l, hnear, (Rows.hasDirection_iff hv).trans hlong⟩

/-- A feature has an orientation where it has a direction, and it is the one. -/
theorem orientation_spec :
    match (r.components? i).bind Quaternion.normalized? with
    | some p => r.Oriented i p
    | none => ¬ r.HasDirection i := by
  cases hv : r.components? i with
  | none =>
      rintro ⟨l, hl, -⟩
      rw [length?, hv] at hl
      cases hl
  | some v =>
      rw [Option.bind_some, Quaternion.normalized?]
      by_cases hlong : Quaternion.leastLength < v.length
      · rw [if_pos hlong]
        have hquotients : ∀ k, (⟨v.x / v.length, v.y / v.length, v.z / v.length,
            v.w / v.length⟩ : Quaternion).component k = v.component k / v.length := by
          intro k
          fin_cases k <;> rfl
        refine ⟨(hasDirection_iff hv).mpr hlong, ?_, fun V hV => ?_⟩
        · intro v' hv' l hl k
          cases hv.symm.trans hv'
          cases (length?_of_components hv).symm.trans hl
          exact hquotients k
        · obtain ⟨v', hv', hstands⟩ := hV.stands
          cases hv.symm.trans hv'
          exact hstands.directed hlong hquotients
      · rw [if_neg hlong]
        exact mt (hasDirection_iff hv).mp hlong

theorem inputs_phase (h : i < r.phases.size) : r.inputs.phase i = .ok (r.phase i) := by
  have hrow : r.phases[i]? = some r.phases[i] := Array.getElem?_eq_getElem h
  simp only [Inputs.phase, inputs, phase, hrow, Option.map_some, Option.getD_some]

theorem inputs_orientation? :
    r.inputs.orientation? i = (r.components? i).bind Quaternion.normalized? := by
  have hcomponent : ∀ k, r.orientations[4 * i + k]? = (r.orientations.toList.drop (4 * i))[k]? :=
    fun k => by rw [List.getElem?_drop, Array.getElem?_toList]
  have htuple : (r.orientations.extract (4 * i) (4 * i + 4)).toList =
      (r.orientations.toList.drop (4 * i)).take 4 := by
    rw [Array.toList_extract, List.extract_eq_take_drop, Nat.add_sub_cancel_left]
  have hfirst := hcomponent 0
  rw [Nat.add_zero] at hfirst
  rw [Inputs.orientation?, components?, inputs, htuple, hfirst, hcomponent, hcomponent, hcomponent]
  -- a tuple that is cut short at the end of the row is none
  rcases r.orientations.toList.drop (4 * i) with _ | ⟨x, _ | ⟨y, _ | ⟨z, _ | ⟨w, rest⟩⟩⟩⟩ <;> rfl

theorem inputs_crystal? {phase : Int} :
    r.inputs.crystals[phase.toNat]? = (r.code? phase).map Crystal.ofCode := by
  rw [inputs, code?, Array.getElem?_map, Option.map_map]
  rfl

theorem fault?_kind {f : Failure} (h : r.fault? i n = some f) : f.kind = .execution := by
  unfold fault? crystalFault? at h
  split at h
  · cases h
    rfl
  · split at h
    · split at h
      · cases h
        rfl
      · split at h <;> cases h
        rfl
    · cases h

theorem Faulty.kind {lists : List (List Int32)} {f : Failure} (h : r.Faulty lists f) :
    f.kind = .execution := by
  obtain ⟨i, neighbors, -, h⟩ := h
  obtain ⟨n, -, h⟩ := List.exists_of_findSome?_eq_some h
  exact fault?_kind h

theorem faultFrom?_eq_none {lists : List (List Int32)} :
    r.faultFrom? 0 lists = none ↔ ∀ f, ¬ r.Faulty lists f := by
  rw [faultFrom?, List.findSome?_eq_none_iff]
  constructor
  · rintro hnone f ⟨i, neighbors, hi, hfault⟩
    cases hfault.symm.trans (hnone (neighbors, i) (List.mem_zipIdx_iff_getElem?.mpr hi))
  · rintro hnone ⟨neighbors, i⟩ hmem
    refine Option.eq_none_iff_forall_not_mem.mpr fun f hf => hnone f ⟨i, neighbors, ?_, hf⟩
    exact List.mem_zipIdx_iff_getElem?.mp hmem

/-! ## What the program answers -/

theorem undefined_iff {code : Nat} (h : 0 < r.phase i ∧ r.phase i = r.phase j)
    (hcode : r.code? (r.phase i) = some code) (hknown : code ≠ unknownCode) :
    r.Undefined i j ↔ ¬ r.HasDirection i ∨ ¬ r.HasDirection j := by
  have hpos : ¬ r.phase i ≤ 0 := by omega
  have hsame : ¬ r.phase i ≠ r.phase j := fun hne => hne h.2
  have hcrystal : ¬ r.code? (r.phase i) = some unknownCode := by
    rw [hcode]
    exact fun heq => hknown (Option.some.inj heq)
  simp only [Undefined, hpos, hsame, hcrystal, false_or]

theorem angleIn_answers (h : 0 < r.phase i ∧ r.phase i = r.phase j) :
    Answers (r.crystalFault? i) (r.Entry i j) (r.inputs.angleIn (r.phase i) i j) := by
  unfold crystalFault?
  rw [Inputs.angleIn, inputs_crystal?, inputs_orientation?, inputs_orientation?]
  cases hcode : r.code? (r.phase i) with
  | none => exact rfl
  | some code =>
      rw [Option.map_some, Crystal.ofCode]
      by_cases hunknown : code = unknownCode
      · rw [if_pos hunknown]
        refine ⟨if_pos (.inl hunknown), .undefined (.inr (.inr (.inl ?_)))⟩
        rw [hcode, hunknown]
      · rw [if_neg hunknown]
        have hundefined := undefined_iff h hcode hunknown
        cases hclass : LaueClass.ofCode? code with
        | none => exact if_neg (by simp [hunknown, hclass])
        | some c =>
            have hfine : code = unknownCode ∨ (LaueClass.ofCode? code).isSome :=
              .inr (Option.isSome_of_eq_some hclass)
            have hi := @orientation_spec r i
            have hj := @orientation_spec r j
            rcases hp : (r.components? i).bind Quaternion.normalized? with _ | p <;> rw [hp] at hi
            · exact ⟨if_pos hfine, .undefined (hundefined.mpr (.inl hi))⟩
            rcases hq : (r.components? j).bind Quaternion.normalized? with _ | q <;> rw [hq] at hj
            · exact ⟨if_pos hfine, .undefined (hundefined.mpr (.inr hj))⟩
            have hdefined : ¬ r.Undefined i j := by
              rw [hundefined]
              exact not_or_intro (not_not_intro hi.long) (not_not_intro hj.long)
            obtain ⟨a, ha, hdegrees⟩ := least_misorientation c.operators_ne_nil
            refine ⟨if_pos hfine, ?_⟩
            rw [hdegrees]
            exact .angle hdefined hcode hclass hi hj ha

/-- Between two features of the row the program answers with the fault or with an entry. -/
theorem angle_answers (hi : i < r.phases.size) (hj : j < r.phases.size) :
    Answers (if 0 < r.phase i ∧ r.phase i = r.phase j then r.crystalFault? i else none)
      (r.Entry i j) (r.inputs.angle i j) := by
  rw [Inputs.angle, inputs_phase hi, inputs_phase hj]
  show Answers _ _ (if r.phase i ≤ 0 then .ok undefinedMark
    else if r.phase i ≠ r.phase j then .ok undefinedMark else r.inputs.angleIn (r.phase i) i j)
  by_cases hnone : r.phase i ≤ 0
  · rw [if_pos hnone]
    exact ⟨if_neg (by omega), .undefined (.inl hnone)⟩
  · rw [if_neg hnone]
    by_cases hapart : r.phase i ≠ r.phase j
    · rw [if_pos hapart]
      exact ⟨if_neg fun h => hapart h.2, .undefined (.inr (.inl hapart))⟩
    · have hshared : 0 < r.phase i ∧ r.phase i = r.phase j := by omega
      rw [if_neg hapart, if_pos hshared]
      exact angleIn_answers hshared

theorem angles_answers (hi : i < r.phases.size) {neighbors : List Int32} :
    Answers (neighbors.findSome? (r.fault? i))
      (List.Forall₂ (fun n x => r.Entry i n.toInt.toNat x) neighbors)
      (r.inputs.angles i neighbors) := by
  refine Answers.mapM fun n _ => ?_
  show Answers _ _ (if 0 ≤ n.toInt ∧ n.toInt < r.phases.size then r.inputs.angle i n.toInt.toNat
    else .error (Error.unknownNeighbor i n.toInt r.phases.size).failure)
  by_cases hrange : 0 ≤ n.toInt ∧ n.toInt < r.phases.size
  · rw [if_pos hrange, fault?, if_neg (by omega)]
    exact angle_answers hi (by omega)
  · rw [if_neg hrange, fault?, if_pos (by omega)]
    exact rfl

/-! ## All features -/

variable {first : Nat} {lists : List (List Int32)} {counter : Counter} {run : Run}

theorem allAngles_of_cancelled {inputs : Inputs} (h : run.cancelled = true) :
    inputs.allAngles first lists counter run = (.ok (lists.map fun _ => []), run) := by
  induction lists generalizing first with
  | nil => rfl
  | cons neighbors rest ih =>
      rw [Inputs.allAngles, if_pos h, ih]
      rfl

theorem faultFrom?_cons {neighbors : List Int32} {rest : List (List Int32)} :
    r.faultFrom? first (neighbors :: rest) =
      (neighbors.findSome? (r.fault? first)).or (r.faultFrom? (first + 1) rest) := by
  rw [faultFrom?, List.zipIdx_cons, List.findSome?_cons]
  dsimp only
  cases neighbors.findSome? (r.fault? first) <;> rfl

/--
Feature after feature the program answers with the first fault, or with all
entries. Only a run that was cancelled may have ended before it came to a fault.
-/
theorem allAngles_answers (h : first + lists.length ≤ r.phases.size) {run' : Run}
    {result : Except Failure (List (List Float32))}
    (hrun : r.inputs.allAngles first lists counter run = (result, run')) :
    run'.cancelled = true ∧ result.isOk ∨
      Answers (r.faultFrom? first lists) (Listed r.Entry first lists) result := by
  induction lists generalizing first counter run result with
  | nil =>
      cases hrun
      exact .inr ⟨rfl, .nil⟩
  | cons neighbors rest ih =>
      cases hcancelled : run.cancelled with
      | true =>
          rw [allAngles_of_cancelled hcancelled] at hrun
          cases hrun
          exact .inl ⟨hcancelled, rfl⟩
      | false =>
          rw [List.length_cons] at h
          have hfeature := @angles_answers r first (by omega) neighbors
          rw [Inputs.allAngles, if_neg (by simp [hcancelled])] at hrun
          dsimp only at hrun
          rw [faultFrom?_cons]
          cases hangles : r.inputs.angles first neighbors with
          | error e =>
              rw [hangles] at hrun hfeature
              cases hrun
              right
              rw [show neighbors.findSome? _ = some e from hfeature]
              exact rfl
          | ok angles =>
              rw [hangles] at hrun hfeature
              obtain ⟨hnone, hentries⟩ := hfeature
              rw [hnone, Option.none_or]
              rcases hrest : r.inputs.allAngles (first + 1) rest (counter.advance 1 run).1
                (counter.advance 1 run).2 with ⟨others, last⟩
              rw [hrest] at hrun
              cases hrun
              have hothers := ih (by omega) hrest
              rcases others with e | others
              · exact hothers.imp (fun hok => nomatch hok.2) id
              · exact hothers.imp id fun hok => ⟨hok.1, .cons hentries hok.2⟩

end Rows

end Builtin.Misorientation

end FilterTree
