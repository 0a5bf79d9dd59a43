import Federation.Proofs.DateText
import Federation.Proofs.DocumentConversion
import Federation.Proofs.VersionText

/-!
# The version of a graph

The version of a graph names an instant in universal time. It is the version of the registry in the
document that the graph was built from: nothing of the instant is lost in writing, and nothing but
the instant is kept of the text that a document states it in.
-/

namespace Federation.NetworkDocument

open Instant

variable {doc doc' : NetworkDocument} {g g' : TrustGraph} {t t' : Instant}

/-! ### Versions and instants -/

/-- A text that stands for an instant as the version in documents. -/
structure StandsFor (version : String) (t : Instant) : Prop where
  read?_eq : read? version = some t
  /-- Documents that state the version have the instant as theirs. -/
  registryVersion_eq : ∀ format text (doc : NetworkDocument), parse format text = .ok doc →
    statedVersion? format text = some version → doc.registryVersion = some t
  /-- Every sound document can state it. -/
  stated : ∀ (doc : NetworkDocument) format, doc.validate = .ok () →
    statedVersion? format (doc.textWith version format) = some version ∧
      parse format (doc.textWith version format) =
        .ok { doc.normalized with registryVersion := some t }

theorem registryVersion_of_stated {format : DocumentFormat} {text s : String}
    (parsed : parse format text = .ok doc) (stated : statedVersion? format text = some s) :
    ∃ t, doc.registryVersion = some t ∧ read? s = some t := by
  have hdates := registryVersion_of_parse parsed
  rw [stated] at hdates
  cases hversion : doc.registryVersion with
  | none =>
    rw [hversion] at hdates
    cases hdates
  | some t =>
    rw [hversion] at hdates
    cases hdates with
    | some hread => exact ⟨t, rfl, hread⟩

theorem standsFor_of_read? {version : String} (h : read? version = some t) :
    StandsFor version t where
  read?_eq := h
  registryVersion_eq format text doc parsed stated := by
    obtain ⟨u, hversion, hread⟩ := registryVersion_of_stated parsed stated
    rw [hversion, ← hread, h]
  stated doc format sound :=
    ⟨doc.statedVersion?_textWith version format, parse_textWith h sound format⟩

/-- The version of a graph stands for the instant that it is written for. -/
theorem read?_graphVersion (readable : t.Readable) : read? (graphVersion t) = some t :=
  read?_write (readable_iff.1 readable) (Or.inr rfl)

theorem graphVersion_inj (readable : t.Readable) (readable' : t'.Readable) :
    graphVersion t = graphVersion t' ↔ t = t' := by
  refine ⟨fun h => ?_, congrArg graphVersion⟩
  have hread := read?_graphVersion readable
  rw [h, read?_graphVersion readable'] at hread
  exact (Option.some.inj hread).symm

theorem readable_iff_year : t.Readable ↔ minYear ≤ t.date.year ∧ t.date.year ≤ maxYear := by
  rw [readable_iff, admits, Bool.and_eq_true, decide_eq_true_eq, decide_eq_true_eq]

/-- Graphs of documents with readable versions have the same version only if the documents do. -/
theorem version_eq_iff (built : doc.toGraph = .ok g) (built' : doc'.toGraph = .ok g')
    (readable : ∀ t, doc.registryVersion = some t → t.Readable)
    (readable' : ∀ t, doc'.registryVersion = some t → t.Readable) :
    g.version = g'.version ↔ doc.registryVersion = doc'.registryVersion := by
  rw [(describes_of_toGraph built).version_eq, (describes_of_toGraph built').version_eq]
  cases h : doc.registryVersion with
  | none => cases doc'.registryVersion <;> simp
  | some t =>
    cases h' : doc'.registryVersion with
    | none => simp
    | some t' =>
      simp only [Option.map_some, Option.some.injEq]
      exact graphVersion_inj (readable t h) (readable' t' h')

/-! ### Versions and texts -/

/-- The graph comes from a text that states its version in the given way. -/
def BuiltStating (s : String) (g : TrustGraph) : Prop :=
  ∃ format text doc, parse format text = .ok doc ∧ statedVersion? format text = some s ∧
    doc.toGraph = .ok g

theorem version_of_builtStating {s : String} (h : BuiltStating s g) :
    ∃ t, read? s = some t ∧ g.version = some (graphVersion t) := by
  obtain ⟨format, text, doc, parsed, stated, built⟩ := h
  obtain ⟨t, hversion, hread⟩ := registryVersion_of_stated parsed stated
  refine ⟨t, hread, ?_⟩
  rw [(describes_of_toGraph built).version_eq, hversion, Option.map_some]

theorem version_eq_iff_sameInstant {s s' : String} {r r' : ClockReading}
    (h : BuiltStating s g) (h' : BuiltStating s' g') (spelt : r.Spelt s) (spelt' : r'.Spelt s') :
    g.version = g'.version ↔ r.SameInstant r' := by
  obtain ⟨t, hread, hversion⟩ := version_of_builtStating h
  obtain ⟨t', hread', hversion'⟩ := version_of_builtStating h'
  obtain ⟨-, -, shown⟩ :=
    ClockReading.instant?_eq_some_iff.1 ((read?_of_spelt spelt).symm.trans hread)
  obtain ⟨-, -, shown'⟩ :=
    ClockReading.instant?_eq_some_iff.1 ((read?_of_spelt spelt').symm.trans hread')
  rw [hversion, hversion', Option.some.injEq, graphVersion_inj ⟨s, hread⟩ ⟨s', hread'⟩,
    shown.sameInstant_iff shown']

/-- A graph has a version exactly if its document has one. The version stands for the instant of
the registry, so that it tells any two instants apart, in all years that can be written down. A date
that is accepted spells what a clock shows and is read as the instant at which the clock shows it,
so that the version does not depend on the zone or the spelling in which a document states it. -/
theorem graphVersion_identifies :
    (∀ (doc : NetworkDocument) g, doc.toGraph = .ok g → doc.registryVersion = none →
      g.version = none) ∧
    (∀ (doc : NetworkDocument) g t, doc.toGraph = .ok g → doc.registryVersion = some t →
      t.Readable → ∃ version, g.version = some version ∧ StandsFor version t) ∧
    (∀ (doc doc' : NetworkDocument) g g', doc.toGraph = .ok g → doc'.toGraph = .ok g' →
      (∀ t, doc.registryVersion = some t → t.Readable) →
      (∀ t, doc'.registryVersion = some t → t.Readable) →
      (g.version = g'.version ↔ doc.registryVersion = doc'.registryVersion)) ∧
    (∀ t : Instant, t.Readable ↔ minYear ≤ t.date.year ∧ t.date.year ≤ maxYear) ∧
    (∀ s t, read? s = some t → ∃ r : ClockReading, r.Spelt s) ∧
    (∀ (s : String) (r : ClockReading), r.Spelt s → ∀ t,
      read? s = some t ↔ admits r.date = true ∧ admits t.date = true ∧ r.At t) ∧
    ∀ s s' g g' (r r' : ClockReading), BuiltStating s g → BuiltStating s' g' → r.Spelt s →
      r'.Spelt s' → (g.version = g'.version ↔ r.SameInstant r') := by
  refine ⟨?_, ?_, ?_, fun t => readable_iff_year, fun s t => exists_spelt_of_read?, ?_, ?_⟩
  · intro doc g built missing
    rw [(describes_of_toGraph built).version_eq, missing, Option.map_none]
  · intro doc g t built stated readable
    refine ⟨graphVersion t, ?_, standsFor_of_read? (read?_graphVersion readable)⟩
    rw [(describes_of_toGraph built).version_eq, stated, Option.map_some]
  · intro doc doc' g g' built built' readable readable'
    exact version_eq_iff built built' readable readable'
  · intro s r spelt t
    rw [read?_of_spelt spelt, ClockReading.instant?_eq_some_iff]
  · intro s s' g g' r r' h h' spelt spelt'
    exact version_eq_iff_sameInstant h h' spelt spelt'

/-- The leap second in the text of `zoned`, on a clock an hour ahead of universal time. -/
def hourAhead : ClockReading :=
  ⟨⟨2015, 7, 1, by decide, by decide⟩, 0, 59, leapSecond.second, leapSecond.nanosecond, 60,
    by decide, by decide, leapSecond.second_le, by decide⟩

/-- The same leap second on a clock that is four and a half hours behind. -/
def hoursBehind : ClockReading :=
  ⟨leapSecond.date, 19, 29, leapSecond.second, leapSecond.nanosecond, -270,
    by decide, by decide, leapSecond.second_le, by decide⟩

theorem spellsNumber_pair {n : Nat} {a b : Char} (numeral : Numeral n [a, b]) :
    SpellsNumber n [a, b] :=
  @SpellsNumber.digits n [] _ nofun numeral (Nat.le_refl 2)

theorem spelt_hourAhead : hourAhead.Spelt "2015-07-01 00:59:60.5+01:00" := by
  have dash : SpellsMark '-' ['-'] := @SpellsMark.mark '-' [] nofun
  have colon : SpellsMark ':' [':'] := @SpellsMark.mark ':' [] nofun
  have year : SpellsYear 2015 ['2', '0', '1', '5'] :=
    @SpellsYear.unsigned 2015 [] _ nofun ⟨List.all_eq_true.1 rfl, nofun, rfl⟩ (by decide)
  have seven : Numeral 7 ['0', '7'] := ⟨List.all_eq_true.1 rfl, nofun, rfl⟩
  have one : Numeral 1 ['0', '1'] := ⟨List.all_eq_true.1 rfl, nofun, rfl⟩
  have zero : Numeral 0 ['0', '0'] := ⟨List.all_eq_true.1 rfl, nofun, rfl⟩
  have minute : Numeral 59 ['5', '9'] := ⟨List.all_eq_true.1 rfl, nofun, rfl⟩
  have second : Numeral 60 ['6', '0'] := ⟨List.all_eq_true.1 rfl, nofun, rfl⟩
  have fraction : SpellsFraction 500000000 ['.', '5'] :=
    @SpellsFraction.present 5 ['5'] ⟨List.all_eq_true.1 rfl, nofun, rfl⟩
  have zone : SpellsZone 60 ['+', '0', '1', ':', '0', '0'] :=
    @SpellsZone.ahead 60 [] _ nofun
      (@SpellsOffset.parts 1 0 _ _ _ _ [':'] one zero
        (fun _ hc => Or.inl (List.mem_singleton.1 hc)) (by decide) (by decide))
  exact ⟨_, _, year, rfl, _, _, dash, rfl, _, _, spellsNumber_pair seven, rfl, _, _, dash, rfl,
    _, _, spellsNumber_pair one, rfl, _, _, .letter (by decide), rfl,
    _, _, spellsNumber_pair zero, rfl, _, _, colon, rfl, _, _, spellsNumber_pair minute, rfl,
    _, _, colon, rfl, _, _, spellsNumber_pair second, rfl, _, _, fraction, rfl, _, [], zone, rfl,
    nofun⟩

theorem spelt_hoursBehind : hoursBehind.Spelt "+2015-6-30t 19:29 :60.5000000009−04 30 " := by
  have dash : SpellsMark '-' ['-'] := @SpellsMark.mark '-' [] nofun
  have blank : Blank [' '] := List.all_eq_true.1 rfl
  have year : SpellsYear 2015 ['+', '2', '0', '1', '5'] :=
    @SpellsYear.positive 2015 [] ['2', '0', '1', '5'] nofun ⟨List.all_eq_true.1 rfl, nofun, rfl⟩
  have month : SpellsNumber 6 ['6'] :=
    @SpellsNumber.digits 6 [] ['6'] nofun ⟨List.all_eq_true.1 rfl, nofun, rfl⟩ (by decide)
  have thirty : Numeral 30 ['3', '0'] := ⟨List.all_eq_true.1 rfl, nofun, rfl⟩
  have hour : SpellsNumber 19 [' ', '1', '9'] :=
    @SpellsNumber.digits 19 [' '] ['1', '9'] blank ⟨List.all_eq_true.1 rfl, nofun, rfl⟩ (by decide)
  have minute : Numeral 29 ['2', '9'] := ⟨List.all_eq_true.1 rfl, nofun, rfl⟩
  have colon : SpellsMark ':' [' ', ':'] := @SpellsMark.mark ':' [' '] blank
  have second : Numeral 60 ['6', '0'] := ⟨List.all_eq_true.1 rfl, nofun, rfl⟩
  have fraction : SpellsFraction 500000000 ('.' :: "5000000009".toList) :=
    @SpellsFraction.present 5000000009 "5000000009".toList ⟨List.all_eq_true.1 rfl, nofun, rfl⟩
  have four : Numeral 4 ['0', '4'] := ⟨List.all_eq_true.1 rfl, nofun, rfl⟩
  have zone : SpellsZone (-270) ['−', '0', '4', ' ', '3', '0'] :=
    @SpellsZone.behind 270 [] _ '−' nofun (by decide)
      (@SpellsOffset.parts 4 30 _ _ _ _ [' '] four thirty (fun c hc => Or.inr (blank c hc))
        (by decide) (by decide))
  exact ⟨_, _, year, rfl, _, _, dash, rfl, _, _, month, rfl, _, _, dash, rfl,
    _, _, spellsNumber_pair thirty, rfl, _, _, .letter (by decide), rfl, _, _, hour, rfl,
    _, _, @SpellsMark.mark ':' [] nofun, rfl, _, _, spellsNumber_pair minute, rfl, _, _, colon, rfl,
    _, _, spellsNumber_pair second, rfl, _, _, fraction, rfl, _, [' '], zone, rfl, blank⟩

/-- A spring day of the first year in which instants can be written down. -/
def farBack : Instant :=
  ⟨⟨minYear, 3, 2, by decide, by decide⟩, 425, 7, 1, by decide, by decide, by decide⟩

/-- A document whose registry is that old. -/
def ancient : NetworkDocument :=
  { awkward with registryVersion := some farBack }

/-- Two documents state the same leap second in different zones and spellings, one of them in YAML
and one in JSON. Their graphs have the same version, which stands for the leap second. The graph of
an older registry has another version, and that of a document without a version has none. -/
theorem graphVersion_identifies_leapSecond :
    (∃ g, namedProvider.toGraph = .ok g ∧ namedProvider.registryVersion = none ∧
      g.version = none) ∧
    leapSecond.Readable ∧ farBack.Readable ∧
    (∃ g g', awkward.toGraph = .ok g ∧ ancient.toGraph = .ok g' ∧ g.version ≠ g'.version ∧
      (∃ version, g.version = some version ∧ StandsFor version leapSecond) ∧
      ∃ version, g'.version = some version ∧ StandsFor version farBack) ∧
    ∃ g g', BuiltStating "2015-07-01 00:59:60.5+01:00" g ∧
      BuiltStating "+2015-6-30t 19:29 :60.5000000009−04 30 " g' ∧
      hourAhead.SameInstant hoursBehind ∧ g.version = g'.version := by
  obtain ⟨missing, present, distinct, years, -, dates, alike⟩ := graphVersion_identifies
  have readable : leapSecond.Readable := (years _).2 (by decide)
  have readable' : farBack.Readable := (years _).2 (by decide)
  have named := @toGraph_of_validate namedProvider rfl
  have sound : awkward.validate = .ok () := by decide +kernel
  have recent := toGraph_of_validate sound
  have old := @toGraph_of_validate ancient sound
  have differ := distinct awkward ancient _ _ recent old
    (fun t ht => Option.some.inj ht ▸ readable) (fun t ht => Option.some.inj ht ▸ readable')
  have parsed : parse .yaml zonedText = .ok zoned := by decide +kernel
  have stated : statedVersion? .yaml zonedText = some "2015-07-01 00:59:60.5+01:00" := by
    decide +kernel
  have built : BuiltStating _ _ :=
    ⟨_, _, _, parsed, stated, toGraph_of_validate (sound_of_parse parsed)⟩
  have shown : hoursBehind.At leapSecond := ⟨by decide +kernel, rfl, rfl⟩
  have hread := (dates _ _ spelt_hoursBehind leapSecond).2 ⟨rfl, rfl, shown⟩
  have parsed' := parse_textWith hread sound .json
  have built' : BuiltStating _ _ :=
    ⟨_, _, _, parsed', awkward.statedVersion?_textWith _ .json,
      toGraph_of_validate (sound_of_parse parsed')⟩
  have same : hourAhead.SameInstant hoursBehind := ⟨by decide +kernel, rfl, rfl⟩
  exact ⟨⟨_, named, rfl, missing _ _ named rfl⟩, readable, readable',
    ⟨_, _, recent, old, fun h => absurd (differ.1 h) (by decide),
      present _ _ _ recent rfl readable, present _ _ _ old rfl readable'⟩,
    _, _, built, built', same,
    (alike _ _ _ _ _ _ built built' spelt_hourAhead spelt_hoursBehind).2 same⟩

end Federation.NetworkDocument
