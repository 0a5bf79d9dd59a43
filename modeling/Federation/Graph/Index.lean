import Federation.Trust

/-!
# Trust declarations

Declared trust is kept three times: as the list of edges in the order of declaration, as the
targets of each source in that order, and as a set of targets by source, which tells at once whether
a pair was declared. Of several declarations for one ordered pair the first counts.
-/

namespace Federation

/-- The declared edges with the views of them that routing reads. -/
structure TrustIndex where
  edges : List TrustEdge
  /-- The targets of each source in the order of declaration. -/
  successors : Table ProviderId (List ProviderId)
  /-- The targets of each source as a set. -/
  members : Table ProviderId (Table ProviderId Unit)
deriving DecidableEq, Inhabited

namespace TrustIndex

/-- No declared trust. -/
def empty : TrustIndex :=
  ⟨[], {}, {}⟩

/-- The providers that `id` trusts, in the order of declaration. -/
def outgoing (ix : TrustIndex) (id : ProviderId) : List ProviderId :=
  (ix.successors.get? id).getD []

/-- The set of providers that `id` trusts. -/
def trusted (ix : TrustIndex) (id : ProviderId) : Table ProviderId Unit :=
  (ix.members.get? id).getD {}

/-- Whether trust from `source` to `target` was declared. -/
def hasEdge (ix : TrustIndex) (source target : ProviderId) : Bool :=
  (ix.trusted source).contains target

/-- Adds a declaration, unless its pair was declared before. -/
def declare (ix : TrustIndex) (e : TrustEdge) : TrustIndex :=
  if ix.hasEdge e.source e.target then
    ix
  else
    ⟨ix.edges ++ [e],
      ix.successors.insert e.source (ix.outgoing e.source ++ [e.target]),
      ix.members.insert e.source ((ix.trusted e.source).insert e.target ())⟩

/-- The index of a list of declarations. -/
def ofList (declared : List TrustEdge) : TrustIndex :=
  declared.foldl declare empty

end TrustIndex

end Federation
