import Federation.Provider
import Federation.Text.Blank

/-!
# Trust relationships

A trust edge runs from the provider that relies on assertions to the one that makes them, and
never implies the edge back. The topology of a network names the rules by which trust is routed.
-/

namespace Federation

/-- How a trust relationship came about. -/
inductive TrustLevel where
  | explicit
  | transitive
deriving DecidableEq, Inhabited

/-- The word a level is written with. -/
def TrustLevel.word : TrustLevel → String
  | explicit => "explicit"
  | transitive => "transitive"

/-- The level that a word names. -/
def TrustLevel.ofWord? : String → Option TrustLevel
  | "explicit" => some explicit
  | "transitive" => some transitive
  | _ => none

theorem TrustLevel.ofWord?_eq_some_iff {w : String} {l : TrustLevel} :
    ofWord? w = some l ↔ w = l.word := by
  constructor
  · intro h
    unfold ofWord? at h
    split at h <;> simp_all [word] <;> subst h <;> rfl
  · rintro rfl
    cases l <;> rfl

/-- The source relies on assertions of the target. -/
structure TrustEdge where
  source : ProviderId
  target : ProviderId
  level : TrustLevel
deriving DecidableEq, Inhabited

/-- The kind of network, which decides the policy that routes it. -/
inductive Topology where
  | hubAndSpoke
  | peerToPeer
  | custom (name : String)
deriving DecidableEq

namespace Topology

instance : Inhabited Topology :=
  ⟨hubAndSpoke⟩

/-- Reads a topology name, apart from white space around it. -/
def ofName (name : String) : Topology :=
  match Text.trim name with
  | "hub-and-spoke" => hubAndSpoke
  | "peer-to-peer" => peerToPeer
  | other => custom other

/-- The name of a topology. -/
def name : Topology → String
  | hubAndSpoke => "hub-and-spoke"
  | peerToPeer => "peer-to-peer"
  | custom name => name

theorem name_ofName (s : String) : (ofName s).name = Text.trim s := by
  unfold ofName
  split <;> simp_all [name]

/-- The name of a topology that was read is read as that topology. -/
theorem ofName_name_ofName (s : String) : ofName (ofName s).name = ofName s := by
  rw [name_ofName, ofName, Text.trim_trim, ← ofName]

end Topology

end Federation
