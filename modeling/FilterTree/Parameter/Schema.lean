import FilterTree.Parameter.Basic

/-!
# Schemas

The parameters of a filter in the order in which they are shown, with headings
between them. A truth value can gate other parameters: a link says that a
parameter is active only while the truth value is what the link asks for, and a
parameter with several links is active while one of them holds. What is not
active is neither required nor checked for more than its kind.

`bind` turns the arguments that a caller gives into those that a filter works
with: exactly the keys of the schema, in its order, with defaults where nothing
was given. It decides activity once, on the defaults overlaid with what was
given, and reports every problem it finds.
-/

namespace FilterTree

/-- An entry of the layout: a heading, or the parameter with a key. -/
inductive LayoutItem where
  | separator (name : String)
  | parameter (key : String)
deriving DecidableEq, Repr

namespace LayoutItem

/-- An entry of the layout with the name of its sort. -/
def toJson : LayoutItem → Json
  | separator name => .obj [("type", .str "separator"), ("value", .str name)]
  | parameter key => .obj [("type", .str "parameter"), ("value", .str key)]

end LayoutItem

/-- A parameter is active while a truth value is as the link asks. -/
structure Link where
  group : String
  child : String
  value : Bool
deriving DecidableEq, Repr

/-- A link as a record. -/
def Link.toJson (l : Link) : Json :=
  .obj [("group", .str l.group), ("child", .str l.child), ("value", .bool l.value)]

/-- The parameters of a filter with their layout and links. -/
structure Schema where
  params : OrderedMap String Parameter
  layout : List LayoutItem
  linkable : List String
  links : List Link

namespace Schema

/-- The schema without parameters. -/
def empty : Schema := ⟨.empty, [], [], []⟩

instance : Inhabited Schema := ⟨empty⟩

variable (s : Schema)

/-! ## Building -/

/-- Add a heading in front of what comes next. -/
def separator (name : String) : Schema := { s with layout := s.layout ++ [.separator name] }

/-- Add a parameter; one with a key that is there takes the other's place. -/
def insert (p : Parameter) : Schema :=
  { s with
    layout := if s.params.contains p.key then s.layout else s.layout ++ [.parameter p.key]
    params := s.params.insert p.key p }

/-- Add a parameter that links may refer to. -/
def insertLinkable (p : Parameter) : Schema :=
  { s with linkable := s.linkable ++ [p.key] }.insert p

/-- Make a parameter active only while another is as asked. -/
def link (group child : String) (value : Bool) : Schema :=
  { s with links := s.links ++ [⟨group, child, value⟩] }

/-! ## Looking -/

/-- The parameters in their order. -/
def parameters : List Parameter := s.params.values

/-- The keys in their order. -/
def keys : List String := s.params.keys

/-- Every parameter's default under its key. -/
def defaults : Arguments := OrderedMap.ofList (s.parameters.map fun p => (p.key, p.default))

/-- The truth value that decides a link: the one given, else the default. -/
def groupValue? (group : String) (args : Arguments) : Option Bool :=
  match args.get? group with
  | some value => Wanted.bool.take? value
  | none => (s.params.get? group).bind fun p => Wanted.bool.take? p.default

/-- Whether a parameter is active under arguments. -/
def isActive (key : String) (args : Arguments) : Bool :=
  let links := s.links.filter fun l => l.child == key
  links.isEmpty || links.any fun l => s.groupValue? l.group args == some l.value

/-! ## Problems of the schema itself -/

/-- What is wrong with a link. -/
def linkProblems (l : Link) : List String :=
  let group := "link group '" ++ l.group ++ "'"
  (if s.linkable.contains l.group then [] else [group ++ " was not inserted as linkable"])
    ++ (match s.params.get? l.group with
      | some p => if p.kind = .bool then [] else [group ++ " is not a bool"]
      | none => [group ++ " is unknown"])
    ++ if s.params.contains l.child then [] else ["link child '" ++ l.child ++ "' is unknown"]

/-- What is wrong with a default; that of a required parameter is never used. -/
def defaultProblems (p : Parameter) : List String :=
  match p.checkValue p.default with
  | .ok _ => []
  | .error e =>
    if p.required then [] else ["default of '" ++ p.key ++ "' is invalid: " ++ e.message]

/-- Everything that is wrong with a schema. -/
def problems : List String :=
  s.links.flatMap s.linkProblems ++ s.parameters.flatMap defaultProblems

/-! ## Binding -/

/-- Code of the warning about a key that no parameter has. -/
def unknownKeyCode : Int := -200

/-- Warnings about keys that no parameter has, in the order of the arguments. -/
def unknownKeys (args : Arguments) : List Warning :=
  (args.keys.filter fun key => !s.params.contains key).map fun key =>
    ⟨unknownKeyCode, s!"argument '{key}' matches no parameter and was ignored"⟩

/-- The defaults overlaid with what was given for a key of the schema. -/
def effective (args : Arguments) : Arguments :=
  s.defaults.insertAll (args.entries.filter fun e => s.params.contains e.1)

/-- The value of one parameter, or what is wrong with it. -/
def bindOne (args : Arguments) (active : Bool) (p : Parameter) : Except ArgumentError Argument :=
  match args.get? p.key with
  | some value =>
    if active then (p.checkValue value).map fun _ => value
    else if p.kind.accepts value then .ok value
    else .error (.inactiveUnacceptable p.label p.kind.text)
  | none =>
    if p.required && active then .error (.missingRequired p.key p.label) else .ok p.default

/-- Take over the outcome for one parameter. -/
def addBound (acc : Report Arguments) (key : String) :
    Except ArgumentError Argument → Report Arguments
  | .ok value => acc.map fun bound => bound.insert key value
  | .error e => acc.addFailure e.failure

/-- Complete and check arguments: all keys of the schema in order, or every problem. -/
def bind (args : Arguments) : Report Arguments :=
  let effective := s.effective args
  s.parameters.foldl
    (fun acc p => addBound acc p.key (bindOne args (s.isActive p.key effective) p))
    ((Report.ok Arguments.none).warnAll (s.unknownKeys args))

end Schema

end FilterTree
