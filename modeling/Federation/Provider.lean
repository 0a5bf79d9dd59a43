import Federation.Table

/-!
# Identity providers

A provider is named by an identifier, which is compared by its text, and carries a role tag that
routing policies look at. Role tags that have no meaning here are kept as they are written.
-/

namespace Federation

/-- The identifier of a provider in a federation network. -/
structure ProviderId where
  text : String
deriving DecidableEq, Inhabited

namespace ProviderId

instance : LT ProviderId :=
  ⟨fun a b => a.text < b.text⟩

instance : LE ProviderId :=
  ⟨fun a b => a.text ≤ b.text⟩

instance : DecidableLT ProviderId :=
  fun a b => inferInstanceAs (Decidable (a.text < b.text))

instance : DecidableLE ProviderId :=
  fun a b => inferInstanceAs (Decidable (a.text ≤ b.text))

instance : Std.LawfulOrderLT ProviderId :=
  ⟨fun a b => Std.LawfulOrderLT.lt_iff a.text b.text⟩

instance : Std.IsLinearOrder ProviderId where
  le_refl a := Std.le_refl a.text
  le_trans a b c := Std.le_trans (a := a.text) (b := b.text) (c := c.text)
  le_antisymm a b h₁ h₂ := by
    cases a; cases b
    exact congrArg mk (Std.le_antisymm h₁ h₂)
  le_total a b := Std.le_total (a := a.text) (b := b.text)

/-- Stands in a result for an endpoint that the caller left out. -/
def unknown : ProviderId :=
  ⟨"unknown"⟩

/-- Whether the identifier has no characters; a blank one is not empty. -/
def isEmpty (id : ProviderId) : Bool :=
  id.text.isEmpty

/-- The identifier as it is shown in diagnostics. -/
def describe (id : ProviderId) : String :=
  "ProviderId(" ++ id.text ++ ")"

end ProviderId

/-- What a provider does in its network. -/
inductive Role where
  | hub
  | spoke
  | peer
  | other (tag : String)
deriving DecidableEq, Inhabited

namespace Role

/-- Reads a role tag; only the exact lowercase tags have a meaning. -/
def ofTag : String → Role
  | "hub" => hub
  | "spoke" => spoke
  | "peer" => peer
  | tag => other tag

/-- The tag a role is written with. -/
def tag : Role → String
  | hub => "hub"
  | spoke => "spoke"
  | peer => "peer"
  | other tag => tag

/-- Whether the role is that of a hub. -/
def isHub : Role → Bool
  | hub => true
  | _ => false

theorem tag_ofTag (t : String) : (ofTag t).tag = t := by
  unfold ofTag
  split <;> rfl

theorem isHub_ofTag {t : String} : (ofTag t).isHub = true ↔ t = "hub" := by
  unfold ofTag
  split <;> simp_all [isHub]

end Role

/-- A provider as a node of a trust graph. -/
structure ProviderNode where
  id : ProviderId
  issuer : String
  role : Role
  metadata : Table String String := {}
deriving DecidableEq, Inhabited

end Federation
