import FilterTree.Builtin.Editing
import FilterTree.Orientation

/-!
# The filter that computes misorientations

Every feature has an average orientation, a phase, and a list of the features
that it touches. The filter adds, next to the orientations, a list of the
misorientations of every feature to those it touches, and on request an array
of their averages. What two features have in common is the crystal of their
phase; where they have none in common, or its structure is not known, a mark
takes the place of the angle, and an average leaves marks out.

Workers share the features among them, and what they come to together is a
`Collector`. One worker alone takes the features in the order of their numbers
(`oneWorker`), and that is how the filter runs here. A cancelled run skips those
that are left and then writes nothing at all; a feature that cannot be computed
ends the run at once. The list is written before the array of averages is looked
for. That array may have been put there by others, and copying the
averages into a row of another length stops the program, as does reading the
phase of a feature behind the end of their row.
-/

namespace FilterTree.Builtin.Misorientation

open Legacy (Importer)

/-- Key of whether averages are wanted. -/
def averageKey : String := "compute_avg_misorientations"
/-- Key of the path of the list of touching features. -/
def neighborsKey : String := "neighbor_list_path"
/-- Key of the path of the average orientations. -/
def orientationsKey : String := "avg_quats_path"
/-- Key of the path of the phases. -/
def phasesKey : String := "feature_phases_path"
/-- Key of the path of the crystal structures. -/
def structuresKey : String := "crystal_structures_path"
/-- Key of the name of the list of misorientations. -/
def listNameKey : String := "misorientation_list_name"
/-- Key of the name of the array of averages. -/
def averageNameKey : String := "avg_misorientations_name"

/-- What can be wrong with the data. -/
inductive Error where
  | notFourComponents
  | tupleCountsDiffer (cause : TreeError)
  | unsupportedStructure (code : Nat) (phase : Int)
  | phaseWithoutStructure (feature : Nat) (phase : Int)
  | unknownNeighbor (feature : Nat) (neighbor : Int) (features : Nat)
  | rowsDiffer (target source : Nat)
  | beyondRow (index length : Nat)

/-- Wrong data as a failure. -/
def Error.failure : Error → Failure
  | notFourComponents =>
    ⟨.structural, -34500, "Input Average Quaternions does not have 4 components."⟩
  | tupleCountsDiffer cause =>
    ⟨.structural, -34501, "feature arrays must have equal tuple counts: " ++ cause.message⟩
  | unsupportedStructure code phase =>
    ⟨.execution, -34502, s!"crystal structure {code} of phase {phase} is not supported"⟩
  | phaseWithoutStructure feature phase =>
    ⟨.execution, -34503, s!"feature {feature} is in phase {phase}, which has no crystal structure"⟩
  | unknownNeighbor feature neighbor features =>
    ⟨.execution, -34504, s!"feature {feature} lists neighbor {neighbor}, outside 0..{features}"⟩
  | rowsDiffer target source =>
    ⟨.crash, 0, s!"copying {source} elements into a row of {target}"⟩
  | beyondRow index length => ⟨.crash, 0, s!"reading element {index} of a row of {length}"⟩

/-! ## Parameters -/

/-- The parameters. -/
def schema : Schema :=
  Schema.empty
    |>.separator "Input Parameter(s)"
    |>.insertLinkable (.bool averageKey "Compute Average Misorientation Per Feature"
        "Store the average misorientation with the neighboring features for each feature" false)
    |>.separator "Input Feature Data"
    |>.insert (.listSelection neighborsKey "Feature Neighbor List"
        "List of the contiguous neighboring features for a given feature"
        ⟨["DataContainer", "Feature Data", "NeighborList"]⟩ [.int32])
    |>.insert (.arraySelection orientationsKey "Feature Average Quaternions"
        "Average orientation of each feature as a quaternion"
        ⟨["DataContainer", "Feature Data", "AvgQuats"]⟩ [.float32] [[4]])
    |>.insert (.arraySelection phasesKey "Feature Phases" "Ensemble each feature belongs to"
        ⟨["DataContainer", "Feature Data", "Phases"]⟩ [.int32] [[1]])
    |>.separator "Input Ensemble Data"
    |>.insert (.arraySelection structuresKey "Crystal Structures"
        "Crystal structure code of each ensemble"
        ⟨["DataContainer", "Cell Ensemble Data", "CrystalStructures"]⟩ [.uint32] [[1]])
    |>.separator "Output Feature Data"
    |>.insert (.objectName listNameKey "Misorientation List"
        "Neighbor list of misorientation angles, in degrees, created next to the quaternions"
        "MisorientationList")
    |>.insert (.objectName averageNameKey "Average Misorientations"
        "Array of the number weighted average of neighbor misorientations" "AvgMisorientations")
    |>.link averageKey averageNameKey true

/-- The objects that the filter reads and creates. -/
structure Places where
  neighbors : Path
  orientations : Path
  phases : Path
  structures : Path
  list : Path
  average : Option Path

/-- What the arguments name; what is created stands next to the orientations. -/
def places (args : Arguments) : Except Failure Places := do
  let orientations ← args.get .path orientationsKey
  let parent := orientations.parent?.getD .root
  let average ←
    if ← args.get .bool averageKey then
      pure (some (parent.child (← args.get .string averageNameKey)))
    else pure none
  let neighbors ← args.get .path neighborsKey
  let phases ← args.get .path phasesKey
  let structures ← args.get .path structuresKey
  let list := parent.child (← args.get .string listNameKey)
  return { neighbors, orientations, phases, structures, list, average }

/-- Orientations have four components, and everything about features the same number of tuples. -/
def checkFeatures (t : Tree) (orientations : Path) (features : List Path) :
    Except Failure Unit := do
  let a ← fromTree (t.arrayAt orientations)
  if a.store.componentCount ≠ 4 then throw Error.notFourComponents.failure
  match t.commonTupleCount features with
  | .ok _ => return
  | .error (.tupleCountMismatch counts) =>
    throw (Error.tupleCountsDiffer (.tupleCountMismatch counts)).failure
  | .error e => throw (refused e)

/-- Actions that create the array of averages, if it is wanted, and the list. -/
def plan (t : Tree) (args : Arguments) : Except Failure Plan := do
  let p ← places args
  checkFeatures t p.orientations [p.orientations, p.phases, p.neighbors]
  let tuples := (← fromTree (t.arrayAt p.orientations)).store.tupleShape
  let average := p.average.toList.map fun path => Action.createArray path .float32 tuples [1]
  return .ok (average ++ [.createList p.list .float32 tuples])

/-! ## Angles -/

/-- What is known of the crystal of a phase. -/
inductive Crystal where
  | unknown
  | symmetric (operators : List Quaternion)
  | unsupported (code : Nat)

/-- Code of a crystal structure that is not known. -/
def unknownCode : Nat := 999

/-- The crystal with a structure code. -/
def Crystal.ofCode (code : Nat) : Crystal :=
  if code = unknownCode then .unknown
  else match LaueClass.ofCode? code with
    | some c => .symmetric c.operators
    | none => .unsupported code

/-- What takes the place of an angle that is not defined. -/
def undefinedMark : Float32 := -100

/-- Orientations, phases and crystals. -/
structure Inputs where
  orientations : Array Float32
  phases : Array Int32
  crystals : Array Crystal

namespace Inputs

variable (inputs : Inputs)

/-- The orientation of a feature. -/
def orientation? (feature : Nat) : Option Quaternion :=
  Quaternion.ofComponents? (inputs.orientations.extract (4 * feature) (4 * feature + 4)).toList

/-- The phase of a feature. -/
def phase (feature : Nat) : Except Failure Int :=
  match inputs.phases[feature]? with
  | some phase => .ok phase.toInt
  | none => .error (Error.beyondRow feature inputs.phases.size).failure

/-- The angle between two features that are both in a phase. -/
def angleIn (phase : Int) (a b : Nat) : Except Failure Float32 :=
  match inputs.crystals[phase.toNat]? with
  | none => .error (Error.phaseWithoutStructure a phase).failure
  | some .unknown => .ok undefinedMark
  | some (.unsupported code) => .error (Error.unsupportedStructure code phase).failure
  | some (.symmetric operators) =>
    match inputs.orientation? a, inputs.orientation? b with
    | some p, some q => .ok (Numeral.narrowed (misorientation operators p q))
    | _, _ => .ok undefinedMark

/-- The angle between two features. -/
def angle (a b : Nat) : Except Failure Float32 := do
  let phase ← inputs.phase a
  if phase ≤ 0 then return undefinedMark
  if phase ≠ (← inputs.phase b) then return undefinedMark
  inputs.angleIn phase a b

/-- The angles between a feature and those it touches. -/
def angles (feature : Nat) (neighbors : List Int32) : Except Failure (List Float32) :=
  neighbors.mapM fun neighbor =>
    let n : Int := neighbor.toInt
    if 0 ≤ n ∧ n < inputs.phases.size then inputs.angle feature n.toNat
    else .error (Error.unknownNeighbor feature n inputs.phases.size).failure

/-- The angles of one feature after another; a cancelled run has none for those that are left. -/
def allAngles : Nat → List (List Int32) → Counter → Run → Except Failure (List (List Float32)) × Run
  | _, [], _, run => (.ok [], run)
  | feature, neighbors :: rest, counter, run =>
    if run.cancelled then
      let (others, run) := allAngles (feature + 1) rest counter run
      (others.map ([] :: ·), run)
    else
      let (counter, run) := counter.advance 1 run
      match inputs.angles feature neighbors with
      | .error e => (.error e, run)
      | .ok angles =>
        let (others, run) := allAngles (feature + 1) rest counter run
        (others.map (angles :: ·), run)

end Inputs

/-- How the angles of all features come together, with a counter and the run on the way. -/
abbrev Collector :=
  Inputs → List (List Int32) → Counter → Run → Except Failure (List (List Float32)) × Run

/-- One worker takes the features one after another. -/
def oneWorker : Collector := fun inputs => inputs.allAngles 0

/-- The average of the angles that are defined; zero if there are none. -/
def average (angles : List Float32) : Float32 :=
  let defined := angles.filter fun angle => angle != undefinedMark
  if defined.isEmpty then 0 else defined.foldl (· + ·) 0 / defined.length.toFloat32

/-! ## Working -/

/-- The elements of the array at a path. -/
def elements (path : Path) (type : ElementType) : Attempt (Array type.Carrier) :=
  .ask fun t => do ((← t.denseAt path type).row).mapError (TreeError.store path)

/-- Replace the lists of the list at a path. -/
def writeLists (path : Path) (lists : List (List Float32)) : Attempt Unit := do
  let store ← .ask fun t => t.listsAt path .float32
  let store ← .ask fun _ => (store.setLists lists.toArray).mapError (TreeError.store path)
  modify fun w => { w with tree := w.tree.setBodyAt path (.list ⟨.float32, store⟩) }

/-- Why elements cannot be copied into the array at a path; another length is no mere failure. -/
def uncopied (path : Path) : StoreError → Failure
  | .lengthMismatch target source => (Error.rowsDiffer target source).failure
  | e => refused (.store path e)

/-- Replace the elements of the array at a path. -/
def writeElements (path : Path) (values : List Float32) : Attempt Unit := do
  let store ← .ask fun t => t.denseAt path .float32
  let store ← .ofExcept ((store.overwrite values.toArray).mapError (uncopied path))
  modify fun w => { w with tree := w.tree.setBodyAt path (.array ⟨.float32, store⟩) }

/-- Write the angles and, on request, their averages. -/
def write (p : Places) (lists : List (List Float32)) : Attempt Completion := do
  writeLists p.list lists
  match p.average with
  | none => return .finished
  | some path =>
    writeElements path (lists.map average)
    return .finished

/-- Compute the angles between features and those they touch, and write them. -/
def compute (collect : Collector) (p : Places) (inputs : Inputs)
    (neighbors : Array (List Int32)) : Attempt Completion := do
  let counter := Counter.new "Computing misorientations" neighbors.size
  let (angles, run) := collect inputs neighbors.toList counter (← get).run
  modify fun w => { w with run := run }
  let lists ← .ofExcept angles
  if run.cancelled then return .cancelled
  write p lists

/-- Look at what the arguments name and compute. -/
def work (collect : Collector) (args : Arguments) : Attempt Completion := do
  let p ← .ofExcept (places args)
  let features := [p.orientations, p.phases, p.neighbors, p.list] ++ p.average.toList
  .ofExcept (checkFeatures (← get).tree p.orientations features)
  let codes ← elements p.structures .uint32
  let orientations ← elements p.orientations .float32
  let phases ← elements p.phases .int32
  let neighbors ← .ask fun t => do
    ((← t.listsAt p.neighbors .int32).lists).mapError (TreeError.store p.neighbors)
  let crystals := codes.map fun (code : UInt32) => Crystal.ofCode code.toNat
  compute collect p ⟨orientations, phases, crystals⟩ neighbors

/-! ## The filter -/

/-- Arguments from an older document. -/
def importLegacy (document : Json) : Report Arguments :=
  Importer.new document schema.defaults
    |>.convert "FindAvgMisors" averageKey .linkedBool .required
    |>.convert "NeighborListArrayPath" neighborsKey .arrayPath .required
    |>.convert "AvgQuatsArrayPath" orientationsKey .arrayPath .required
    |>.convert "FeaturePhasesArrayPath" phasesKey .arrayPath .required
    |>.convert "CrystalStructuresArrayPath" structuresKey .arrayPath .required
    |>.convert "MisorientationListArrayName" listNameKey .linkedName .required
    |>.convert "AvgMisorientationsArrayName" averageNameKey .linkedName .optional
    |>.finish

/-- Computes the misorientations between features that touch. -/
def filterWith (collect : Collector) : Filter where
  name := "ComputeMisorientations"
  humanName := "Compute Feature Neighbor Misorientations"
  uuid := .ofNat 0xecffae22ed76473f9c5873255840c234
  tags := ["ComputeMisorientations", "Statistics", "Crystallography", "Misorientation"]
  schema := schema
  plan t args := return .ofExcept (plan t args)
  body args := (work collect args).report
  importLegacy := importLegacy

/-- The filter as one worker runs it. -/
def filter : Filter := filterWith oneWorker

end FilterTree.Builtin.Misorientation
