import EditorHost.Event
import EditorHost.Extension.Manifest
import EditorHost.Proofs.Json.Records
import EditorHost.Settings.Servers

/-!
# Formats that settle

Events, manifests and settings of language servers are read leniently: from objects and from arrays,
with fields left out, with others that do not matter.  They are written in one way only, and what
was read once is read again from what it is written as.

For each type, `Fits` says what a value has to be like for that: its numbers fit their fields, and
what may be any value is not null, which would be read as none.  Whatever was read is like that.

## Contents

* What fits, and the readers of events, manifests and settings, part by part.
* `Formats.Settled` puts them together, and `Formats.all_settled` proves it.
-/

namespace EditorHost

open Json (Filler Gives Settles Slot slots settles_of_undoes slots_ofFields get?_append get?_cons
  get?_field?)
open Rpc.Payload (Undoes undoes_text)

/-! ## Names and numbers -/

/-- A number of 32 bits with sign. -/
def FitsInt32 (n : Int) : Prop := -2147483648 ≤ n ∧ n ≤ 2147483647

instance (n : Int) : Decidable (FitsInt32 n) := inferInstanceAs (Decidable (_ ∧ _))

namespace Json

theorem gives_any {α : Type} (read : Json → Option α) : Gives read fun _ => True :=
  fun _ _ _ => trivial

theorem gives_nat32 : Gives readNat32 Fits32 := by
  intro v n hread
  exact of_decide_eq_true (Option.filter_eq_some_iff.mp hread).2

theorem undoes_nat32 : Undoes readNat32 (fun n => .whole n) Fits32 := by
  intro n hn
  have hnat : (Json.whole n).asNat? = some n := by simp [Json.whole, Json.asNat?]
  rw [readNat32, hnat]
  exact Option.filter_some_pos (decide_eq_true hn)

theorem gives_int32 : Gives readInt32 FitsInt32 := by
  intro v n hread
  exact of_decide_eq_true (Option.filter_eq_some_iff.mp hread).2

theorem undoes_int32 : Undoes readInt32 Json.whole FitsInt32 := by
  intro n hn
  exact Option.filter_some_pos (decide_eq_true hn)

end Json

theorem undoes_severity (filler : Filler) :
    Undoes (Severity.read filler) Severity.toJson fun _ => True := by
  intro s _
  cases s <;> rfl

theorem undoes_messageKind (filler : Filler) :
    Undoes (MessageKind.read filler) MessageKind.toJson fun _ => True := by
  intro k _
  cases k <;> rfl

theorem undoes_side (filler : Filler) : Undoes (Side.read filler) Side.toJson fun _ => True := by
  intro s _
  cases s <;> rfl

/-! ## Places -/

theorem Position.undoes : Undoes Position.read Position.toJson Position.Fits := by
  intro p hp
  have hslots : slots ["line", "character"] p.toJson =
      some [.given (.whole p.line), .given (.whole p.character)] := by
    simp [toJson, slots_ofFields, get?_cons]
  simp [read, hslots, Json.undoes_nat32 _ hp.1, Json.undoes_nat32 _ hp.2]

theorem Position.gives : Gives Position.read Position.Fits := by
  intro v p hread
  unfold read at hread
  split at hread
  next line character _ =>
    obtain ⟨l, hl, hread⟩ := Option.bind_eq_some_iff.mp hread
    obtain ⟨c, hc, hread⟩ := Option.bind_eq_some_iff.mp hread
    cases hread
    exact ⟨Json.gives_nat32.required hl, Json.gives_nat32.required hc⟩
  · cases hread

theorem Range.undoes : Undoes Range.read Range.toJson Range.Fits := by
  intro r hr
  have hslots : slots ["start", "end"] r.toJson =
      some [.given r.start.toJson, .given r.finish.toJson] := by
    simp [toJson, slots_ofFields, get?_cons]
  simp [read, hslots, Position.undoes _ hr.1, Position.undoes _ hr.2]

theorem Range.gives : Gives Range.read Range.Fits := by
  intro v r hread
  unfold read at hread
  split at hread
  next start finish _ =>
    obtain ⟨s, hs, hread⟩ := Option.bind_eq_some_iff.mp hread
    obtain ⟨f, hf, hread⟩ := Option.bind_eq_some_iff.mp hread
    cases hread
    exact ⟨Position.gives.required hs, Position.gives.required hf⟩
  · cases hread

/-! ## Events -/

def Diagnostic.Fits (d : Diagnostic) : Prop := d.range.Fits

def StatusItem.Fits (i : StatusItem) : Prop := FitsInt32 i.priority

def Event.Fits : Event → Prop
  | .diagnostics _ _ found => ∀ d ∈ found, d.Fits
  | .statusBarUpdate items => ∀ i ∈ items, i.Fits
  | _ => True

theorem found_text (value : Option String) :
    (Slot.found (value.map .text)).optional Json.asText? = some value :=
  Slot.optional_found undoes_text nofun fun _ _ => trivial

theorem Diagnostic.undoes (filler : Filler) :
    Undoes (Diagnostic.read filler) Diagnostic.toJson Diagnostic.Fits := by
  intro d hd
  have hslots : slots ["range", "severity", "message", "source", "code"] d.toJson =
      some [.given d.range.toJson, .given d.severity.toJson, .given (.text d.message),
        .found (d.source.map .text), .found (d.code.map .text)] := by
    simp [toJson, slots_ofFields, get?_append, get?_cons, get?_field?]
  simp [read, hslots, Range.undoes _ hd, undoes_severity filler _ trivial, undoes_text _ trivial,
    found_text]

theorem Diagnostic.gives (filler : Filler) : Gives (Diagnostic.read filler) Diagnostic.Fits := by
  intro v d hread
  unfold read at hread
  split at hread
  next range severity message source code _ =>
    obtain ⟨r, hr, hread⟩ := Option.bind_eq_some_iff.mp hread
    simp only [Option.bind_eq_bind, Option.bind_eq_some_iff] at hread
    obtain ⟨_, _, _, _, _, _, _, _, heq⟩ := hread
    cases heq
    exact Range.gives.required hr
  · cases hread

theorem StatusItem.undoes (filler : Filler) :
    Undoes (StatusItem.read filler) StatusItem.toJson StatusItem.Fits := by
  intro i hi
  have hslots : slots ["id", "extensionId", "text", "tooltip", "alignment", "priority"] i.toJson =
      some [.given (.text i.id), .given (.text i.extension), .given (.text i.text),
        .found (i.tooltip.map .text), .given i.side.toJson, .given (.whole i.priority)] := by
    simp [toJson, slots_ofFields, get?_append, get?_cons, get?_field?]
  simp [read, hslots, undoes_text _ trivial, found_text, undoes_side filler _ trivial,
    Json.undoes_int32 _ hi]

theorem StatusItem.gives (filler : Filler) : Gives (StatusItem.read filler) StatusItem.Fits := by
  intro v i hread
  unfold read at hread
  split at hread
  next id extension text tooltip side priority _ =>
    simp only [Option.bind_eq_bind, Option.bind_eq_some_iff] at hread
    obtain ⟨_, _, _, _, _, _, _, _, _, _, n, hn, heq⟩ := hread
    cases heq
    exact Json.gives_int32.required hn
  · cases hread

namespace Event

/-- An event is read by its type from its payload. -/
theorem read_tagged {type : String} {payload : List (String × Json)}
    (htype : readType (.text type) = some type) :
    read (tagged type payload) = ofTagged .nullOrEmpty type (some (.ofFields payload)) := by
  have hfields : Table.find? (Table.ofList [("type", Json.text type),
      ("payload", Json.ofFields payload)]) "type" = some (.text type) ∧
      Table.find? (Table.ofList [("type", Json.text type), ("payload", Json.ofFields payload)])
        "payload" = some (.ofFields payload) := by
    constructor <;> exact (Json.get?_ofFields _ _).trans rfl
  simp only [read, tagged, Json.ofFields] at hfields ⊢
  rw [hfields.1, hfields.2, Option.bind_some, htype]
  rfl

theorem undoes : Undoes read toJson Fits := by
  intro e he
  cases e with
  | diagnostics uri source found =>
      have hslots : payloadSlots ["uri", "source", "diagnostics"]
          (some (.ofFields [("uri", .text uri), ("source", .text source),
            ("diagnostics", .array (found.map Diagnostic.toJson))])) =
          some [.given (.text uri), .given (.text source),
            .given (.array (found.map Diagnostic.toJson))] := by
        refine (slots_ofFields _ _).trans ?_
        simp [get?_cons]
      rw [toJson, read_tagged rfl]
      unfold ofTagged
      rw [if_pos rfl, hslots]
      simp [undoes_text _ trivial, Json.readList_array (Diagnostic.undoes .nullOrEmpty) he]
  | extensionsChanged => decide
  | showMessage kind text actions =>
      have hslots : payloadSlots ["kind", "text", "actions"]
          (some (.ofFields [("kind", kind.toJson), ("text", .text text),
            ("actions", .ofTexts actions)])) =
          some [.given kind.toJson, .given (.text text), .given (.ofTexts actions)] := by
        refine (slots_ofFields _ _).trans ?_
        simp [get?_cons]
      rw [toJson, read_tagged rfl]
      unfold ofTagged
      rw [if_neg (by decide), if_neg (by decide), if_pos rfl, hslots]
      simp [undoes_text _ trivial, undoes_messageKind .nullOrEmpty _ trivial,
        Json.readList_ofTexts]
  | statusBarUpdate items =>
      have hslots : payloadSlots ["items"]
          (some (.ofFields [("items", .array (items.map StatusItem.toJson))])) =
          some [.given (.array (items.map StatusItem.toJson))] := by
        refine (slots_ofFields _ _).trans ?_
        simp [get?_cons]
      rw [toJson, read_tagged rfl]
      unfold ofTagged
      rw [if_neg (by decide), if_neg (by decide), if_neg (by decide), if_pos rfl, hslots]
      simp [Json.readList_array (StatusItem.undoes .nullOrEmpty) he]

theorem fits_ofTagged {filler : Filler} {type : String} {payload : Option Json} {e : Event}
    (h : ofTagged filler type payload = some e) : e.Fits := by
  unfold ofTagged at h
  split at h
  · split at h
    · simp only [Option.bind_eq_bind, Option.bind_eq_some_iff] at h
      obtain ⟨_, _, _, _, found, hfound, heq⟩ := h
      cases heq
      exact (Diagnostic.gives filler).list.required hfound
    · cases h
  · split at h
    · split at h <;> cases h <;> trivial
    · split at h
      · split at h
        · simp only [Option.bind_eq_bind, Option.bind_eq_some_iff] at h
          obtain ⟨_, _, _, _, _, _, heq⟩ := h
          cases heq
          trivial
        · cases h
      · split at h
        · split at h
          · simp only [Option.bind_eq_bind, Option.bind_eq_some_iff] at h
            obtain ⟨items, hitems, heq⟩ := h
            cases heq
            exact (StatusItem.gives filler).list.required hitems
          · cases h
        · cases h

theorem gives : Gives read Fits := by
  intro v e hread
  unfold read at hread
  split at hread
  · obtain ⟨type, -, h⟩ := Option.bind_eq_some_iff.mp hread
    exact fits_ofTagged h
  · exact fits_ofTagged hread
  · cases hread

end Event

/-! ## Manifests -/

theorem omittable_text (value : Option String) :
    (Slot.found (value.map .text)).omittable Json.asText? = some value :=
  Slot.omittable_found undoes_text (fun _ _ => nofun) fun _ _ => trivial

theorem CommandEntry.undoes : Undoes read toJson fun _ => True := by
  intro c _
  have hslots : slots ["command", "title", "category"] c.toJson =
      some [.given (.text c.command), .given (.text c.title), .found (c.category.map .text)] := by
    simp [toJson, slots_ofFields, get?_cons, get?_field?]
  simp [read, hslots, undoes_text _ trivial, omittable_text]

theorem LanguageEntry.undoes : Undoes read toJson fun _ => True := by
  intro l _
  have hslots : slots ["id", "extensions", "aliases"] l.toJson =
      some [.given (.text l.id), .given (.ofTexts l.extensions), .given (.ofTexts l.aliases)] := by
    simp [toJson, slots_ofFields, get?_cons]
  simp [read, hslots, undoes_text _ trivial, Json.readList_ofTexts]

def Contributions.Fits (c : Contributions) : Prop := c.configuration ≠ some .null

theorem Contributions.undoes : Undoes read toJson Fits := by
  intro c hc
  have hslots : slots ["commands", "languages", "configuration"] c.toJson =
      some [.given (.array (c.commands.map CommandEntry.toJson)),
        .given (.array (c.languages.map LanguageEntry.toJson)), .found c.configuration] := by
    simp [toJson, slots_ofFields, get?_cons, get?_field?]
  have hconfiguration : (Slot.found c.configuration).omittable some = some c.configuration := by
    have hself : Undoes some id (· ≠ Json.null) := fun _ _ => rfl
    have h := Slot.omittable_found hself (fun _ hv => hv) (fun v hv hnull => hc (hnull ▸ hv) :
      ∀ v ∈ c.configuration, v ≠ .null)
    rwa [Option.map_id] at h
  simp [read, hslots, hconfiguration,
    Json.readList_array CommandEntry.undoes fun _ _ => trivial,
    Json.readList_array LanguageEntry.undoes fun _ _ => trivial]

theorem Contributions.gives : Gives read Fits := by
  intro v c hread
  unfold read at hread
  split at hread
  · simp only [Option.bind_eq_bind, Option.bind_eq_some_iff] at hread
    obtain ⟨_, _, _, _, configuration, hconfiguration, heq⟩ := hread
    cases heq
    exact Slot.ne_null_of_omittable hconfiguration
  · cases hread

def Manifest.Fits (m : Manifest) : Prop := m.contributes.Fits

theorem Manifest.undoes : Undoes read toJson Fits := by
  intro m hm
  have hslots : slots names m.toJson =
      some [.given (.text m.publisher), .given (.text m.name), .given (.text m.version),
        .found (m.displayName.map .text), .found (m.description.map .text),
        .found (m.main.map .text), .given (.ofTexts m.activationEvents),
        .given (.object (m.engines.mapValues .text)), .given m.contributes.toJson] := by
    simp [toJson, names, slots_ofFields, get?_append, get?_cons, get?_field?]
  have hengines : Json.readTable Json.asText? (.object (m.engines.mapValues .text)) =
      some m.engines := Json.readTable_mapValues undoes_text fun _ _ => trivial
  simp [read, hslots, undoes_text _ trivial, omittable_text, Json.readList_ofTexts, hengines,
    Contributions.undoes _ hm]

theorem Manifest.gives : Gives read Fits := by
  intro v m hread
  unfold read at hread
  split at hread
  · simp only [Option.bind_eq_bind, Option.bind_eq_some_iff] at hread
    obtain ⟨_, _, _, _, _, _, _, _, _, _, _, _, _, _, _, _, contributes, hcontributes, heq⟩ := hread
    cases heq
    exact Contributions.gives.orElse (fun h => by cases h) hcontributes
  · cases hread

/-! ## Settings of language servers -/

structure ServerCommand.Fits (c : ServerCommand) : Prop where
  initializationOptions : c.initializationOptions ≠ some .null
  settings : c.settings ≠ some .null

theorem ServerCommand.undoes : Undoes read toJson Fits := by
  intro c hc
  have hslots : slots ["command", "args", "initializationOptions", "settings"] c.toJson =
      some [.given (.text c.command), .given (.ofTexts c.args),
        .given (.ofOption c.initializationOptions), .given (.ofOption c.settings)] := by
    simp [toJson, slots_ofFields, get?_cons]
  simp [read, hslots, undoes_text _ trivial, Json.readList_ofTexts,
    Slot.omittable_ofOption hc.initializationOptions, Slot.omittable_ofOption hc.settings]

theorem ServerCommand.gives : Gives read Fits := by
  intro v c hread
  unfold read at hread
  split at hread
  · simp only [Option.bind_eq_bind, Option.bind_eq_some_iff] at hread
    obtain ⟨_, _, _, _, options, hoptions, settings, hsettings, heq⟩ := hread
    cases heq
    exact ⟨Slot.ne_null_of_omittable hoptions, Slot.ne_null_of_omittable hsettings⟩
  · cases hread

def ServerSettings.Fits (s : ServerSettings) : Prop := ∀ entry ∈ s.servers, entry.2.Fits

theorem ServerSettings.fits_default : default.Fits := by
  simp only [Fits, default, defaultServers, List.forall_mem_cons]
  exact ⟨⟨nofun, nofun⟩, ⟨nofun, nofun⟩, ⟨nofun, nofun⟩, ⟨nofun, nofun⟩, nofun⟩

theorem ServerSettings.undoes : Undoes read toJson Fits := by
  intro s hs
  have hslots : slots ["requestTimeoutMs", "servers"] s.toJson =
      some [.given (.whole s.timeout),
        .given (.object (s.servers.mapValues ServerCommand.toJson))] := by
    simp [toJson, slots_ofFields, get?_cons]
  have htimeout : (Json.whole s.timeout).asNat? = some s.timeout := by
    simp [Json.whole, Json.asNat?]
  simp [read, hslots, htimeout, Json.readTable_mapValues ServerCommand.undoes hs]

theorem ServerSettings.gives : Gives read Fits := by
  intro v s hread
  unfold read at hread
  split at hread
  · simp only [Option.bind_eq_bind, Option.bind_eq_some_iff] at hread
    obtain ⟨_, _, servers, hservers, heq⟩ := hread
    cases heq
    exact ServerCommand.gives.table.orElse fits_default hservers
  · cases hread

/-! ## Together -/

namespace Formats

/-- What was read of a format, and of each of its parts, is read again from what it is written as;
and so is every event whose numbers fit. -/
structure Settled : Prop where
  event : Settles Event.read Event.toJson
  everyEvent : Undoes Event.read Event.toJson Event.Fits
  diagnostic : ∀ filler, Settles (Diagnostic.read filler) Diagnostic.toJson
  statusItem : ∀ filler, Settles (StatusItem.read filler) StatusItem.toJson
  severity : ∀ filler, Settles (Severity.read filler) Severity.toJson
  messageKind : ∀ filler, Settles (MessageKind.read filler) MessageKind.toJson
  side : ∀ filler, Settles (Side.read filler) Side.toJson
  range : Settles Range.read Range.toJson
  position : Settles Position.read Position.toJson
  manifest : Settles Manifest.read Manifest.toJson
  contributions : Settles Contributions.read Contributions.toJson
  commandEntry : Settles CommandEntry.read CommandEntry.toJson
  languageEntry : Settles LanguageEntry.read LanguageEntry.toJson
  serverSettings : Settles ServerSettings.read ServerSettings.toJson
  serverCommand : Settles ServerCommand.read ServerCommand.toJson

theorem all_settled : Settled where
  event := settles_of_undoes Event.undoes Event.gives
  everyEvent := Event.undoes
  diagnostic filler := settles_of_undoes (Diagnostic.undoes filler) (Diagnostic.gives filler)
  statusItem filler := settles_of_undoes (StatusItem.undoes filler) (StatusItem.gives filler)
  severity filler := settles_of_undoes (undoes_severity filler) (Json.gives_any _)
  messageKind filler := settles_of_undoes (undoes_messageKind filler) (Json.gives_any _)
  side filler := settles_of_undoes (undoes_side filler) (Json.gives_any _)
  range := settles_of_undoes Range.undoes Range.gives
  position := settles_of_undoes Position.undoes Position.gives
  manifest := settles_of_undoes Manifest.undoes Manifest.gives
  contributions := settles_of_undoes Contributions.undoes Contributions.gives
  commandEntry := settles_of_undoes CommandEntry.undoes (Json.gives_any _)
  languageEntry := settles_of_undoes LanguageEntry.undoes (Json.gives_any _)
  serverSettings := settles_of_undoes ServerSettings.undoes ServerSettings.gives
  serverCommand := settles_of_undoes ServerCommand.undoes ServerCommand.gives

/-- A manifest that stands in an array, with a null where a name to show may be, and a command that
has a name only. -/
def sparse : Json :=
  .array [.text "acme", .text "tools", .text "1.2.0", .null, .null, .text "main.js", .array [],
    .object [], .array [.array [.ofFields [("command", .text "acme.run")]], .array [], .null]]

/-- An item as far to the front as there is, with a tooltip. -/
def firstItem : StatusItem :=
  { id := "branch", extension := "acme.git", text := "main", tooltip := some "on \"main\"",
    side := .right, priority := -2147483648 }

theorem all_settled_sparse :
    (∃ m, Manifest.read sparse = some m ∧ Manifest.read m.toJson = some m) ∧
      FitsInt32 firstItem.priority ∧
      Event.read (Event.statusBarUpdate [firstItem]).toJson =
        some (.statusBarUpdate [firstItem]) := by
  refine ⟨⟨_, rfl, all_settled.manifest sparse _ rfl⟩, by decide, all_settled.everyEvent _ ?_⟩
  intro item hitem
  obtain rfl := List.mem_singleton.mp hitem
  show FitsInt32 firstItem.priority
  decide

end Formats

end EditorHost
