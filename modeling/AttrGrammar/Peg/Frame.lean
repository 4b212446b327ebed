import AttrGrammar.Peg.Entries
import AttrGrammar.Text.Record

/-! Attribute frames. Every activation of a rule owns one: the value it is building, the attributes
it inherited from its caller, the local variables that the rule declares, and the values that the
rules it called returned, each under the name of its call. -/

namespace AttrGrammar.Peg
open Text

/-- The attributes of one activation. Of several entries with one name the first counts. -/
structure Frame (V : Type) where
  value : Option V
  inherited : List (String × V)
  locals : List (String × Option V)
  instances : List (String × V)

namespace Frame

variable {V : Type}

/-- An empty frame with the given local variables. -/
def ofLocals (locals : List String) : Frame V := ⟨none, [], locals.map (·, none), []⟩

def setValue (f : Frame V) (v : V) : Frame V := { f with value := some v }

def takeValue (f : Frame V) : Option V × Frame V := (f.value, { f with value := none })

def modifyValue (f : Frame V) (change : V → V) : Frame V := { f with value := f.value.map change }

/-- An attribute that the caller passed down. -/
def inherited? (f : Frame V) (name : String) : Option V := f.inherited.lookup name

def modifyInherited (f : Frame V) (name : String) (change : V → V) : Frame V :=
  match f.inherited? name with
  | some v => { f with inherited := Entries.replace name (change v) f.inherited }
  | none => f

/-- The frame with values for the inherited attributes of some names, in their order. -/
def bindInherited (f : Frame V) (names : List String) (values : List V) : Frame V :=
  { f with inherited := names.zip values }

/-- A local variable that has been set. -/
def local? (f : Frame V) (name : String) : Option V := (f.locals.lookup name).join

def declares (f : Frame V) (name : String) : Bool := (f.locals.lookup name).isSome

/-- Sets a local variable. Tells whether the rule declares it; if not, nothing changes. -/
def setLocal (f : Frame V) (name : String) (v : V) : Bool × Frame V :=
  (f.declares name, { f with locals := Entries.replace name (some v) f.locals })

def takeLocal (f : Frame V) (name : String) : Option V × Frame V :=
  (f.local? name, { f with locals := Entries.replace name none f.locals })

/-- Changes a local variable in place, if it has been set. -/
def modifyLocal (f : Frame V) (name : String) (change : V → V) : Frame V :=
  match f.local? name with
  | some v => { f with locals := Entries.replace name (some (change v)) f.locals }
  | none => f

/-- The value that the call of a given name returned last. -/
def instance? (f : Frame V) (name : String) : Option V := f.instances.lookup name

def takeInstance (f : Frame V) (name : String) : Option V × Frame V :=
  (f.instance? name, { f with instances := Entries.removeSwap name f.instances })

/-- Stores the value of a call, in the place of the one before if there is one. -/
def setInstance (f : Frame V) (name : String) (v : V) : Frame V :=
  { f with instances := Entries.insert name v f.instances }

instance [Describe V] : Describe (Frame V) where
  describe f := recordText "AttributeFrame"
    [("value", describe f.value), ("inherited", describe f.inherited),
     ("locals", describe f.locals), ("instances", describe f.instances)]

end Frame

end AttrGrammar.Peg
