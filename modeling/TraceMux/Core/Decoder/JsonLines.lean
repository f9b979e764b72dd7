/-
# The JSON lines decoder

The decoder takes the keys it knows off an object and keeps the others as the fields of the
record. It interprets what it has taken only afterwards: a level it does not know, the spelling
of one it knows, and tags that are not texts are dropped.
-/

import TraceMux.Base.StreamDecoder
import TraceMux.Core.LogSink.File

namespace TraceMux.Core.JsonLines

open Base List FileSink.FileLogSink

/-- The members of an object in their order. -/
abbrev Entries := List (String × JsonValue)

/-- The level that a text names, in any case and with the usual synonyms. -/
def parseLevel (s : String) : Option Level :=
  match String.ofList (s.toList.map Char.toLower) with
  | "trace" => some .trace
  | "debug" => some .debug
  | "info" | "information" => some .info
  | "warn" | "warning" => some .warn
  | "error" | "err" => some .error
  | "fatal" | "critical" | "crit" => some .fatal
  | _ => none

/-- Take the first of the keys that is there off an object. -/
def removeFirst : List String → Entries → Option JsonValue × Entries
  | [], obj => (none, obj)
  | key :: keys, obj =>
    match obj.lookup key with
    | some value => (some value, obj.filter fun entry => entry.1 ≠ key)
    | none => removeFirst keys obj

-- The JSON text of a value, and the parser of a frame.
variable (toString : JsonValue → String) (fromSlice : Bytes → Option JsonValue)

/-- A string as it is, and any other value as its JSON text. -/
def textOf : JsonValue → String
  | .string s => s
  | other => toString other

/-- The strings of an array. -/
def tagsOf : JsonValue → List String
  | .array items => items.filterMap fun
    | .string s => some s
    | _ => none
  | _ => []

/-- The record of an object. The keys are taken in this order, and what is left are the fields. -/
def ofObject (obj : Entries) : Record :=
  let (level, obj) := removeFirst ["level"] obj
  let (text, obj) := removeFirst ["msg", "message", "text"] obj
  let (correlationId, obj) := removeFirst ["correlation_id"] obj
  let (schemaId, obj) := removeFirst ["schema_id"] obj
  let (tags, obj) := removeFirst ["tags"] obj
  { schemaId := schemaId.map (textOf toString)
    level := (level.map (textOf toString)).bind parseLevel
    text := text.map (textOf toString)
    fields := .object obj
    tags := (tags.map tagsOf).getD []
    correlationId := correlationId.map (textOf toString) }

def isAsciiWhitespace (b : UInt8) : Bool := b ∈ [0x20, 0x09, 0x0A, 0x0C, 0x0D]

def trimWs (bytes : Bytes) : Bytes :=
  (bytes.dropWhile isAsciiWhitespace).rdropWhile isAsciiWhitespace

/-- A frame that is no JSON becomes a record with its text and a tag. -/
def decode (frame : Bytes) : Option Record :=
  if trimWs frame = [] then none
  else
    match fromSlice (trimWs frame) with
    | some (.object obj) => some (ofObject toString obj)
    | some other => some { fields := other }
    | none =>
      some { text := some (String.ofList (Utf8.lossy frame)), tags := ["json_parse_error"] }

/-- The key and the value of a member can be read off a record: off the part of the record that
the key stands for, with the full value, or off the fields. -/
inductive Recovered (r : Record) : String × JsonValue → Prop
  | level {l : Level} {v : JsonValue} (h : r.level = some l)
      (htext : textOf toString v = levelToken l) : Recovered r ("level", v)
  | text {key : String} {v : JsonValue} (hkey : key ∈ ["msg", "message", "text"])
      (h : r.text = some (textOf toString v)) : Recovered r (key, v)
  | correlationId {v : JsonValue} (h : r.correlationId = some (textOf toString v)) :
      Recovered r ("correlation_id", v)
  | schemaId {v : JsonValue} (h : r.schemaId = some (textOf toString v)) :
      Recovered r ("schema_id", v)
  | tags : Recovered r ("tags", .array (r.tags.map .string))
  | kept {entry : String × JsonValue} {fields : Entries} (h : r.fields = .object fields)
      (hmem : entry ∈ fields) : Recovered r entry

/-- A member of which nothing is lost: a level is spelled as the record's level is written, and
tags are an array of texts. -/
def Liftable (entry : String × JsonValue) : Prop :=
  (entry.1 = "level" → ∃ l, textOf toString entry.2 = levelToken l) ∧
    (entry.1 = "tags" → ∃ tags : List String, entry.2 = .array (tags.map .string))

variable {toString fromSlice} {obj : Entries} {entry : String × JsonValue} {key : String}

theorem parseLevel_levelToken (l : Level) : parseLevel (levelToken l) = some l := by
  cases l <;> decide +kernel

theorem tagsOf_array (tags : List String) : tagsOf (.array (tags.map .string)) = tags := by
  simp [tagsOf, filterMap_map]

theorem lookup_of_mem (hkeys : (obj.map Prod.fst).Nodup) (h : entry ∈ obj) :
    obj.lookup entry.1 = some entry.2 := by
  obtain ⟨before, after, rfl⟩ := append_of_mem h
  rw [map_append, nodup_append] at hkeys
  refine lookup_eq_some_iff.mpr ⟨before, after, rfl, fun other hother => ?_⟩
  simpa using (hkeys.2.2 other.1 (mem_map_of_mem hother) entry.1 (by simp)).symm

/-- Each entry is the one that is taken, or it is left. -/
theorem removeFirst_spec (keys : List String) (hkeys : (obj.map Prod.fst).Nodup) :
    ((removeFirst keys obj).2.map Prod.fst).Nodup ∧ (removeFirst keys obj).2 ⊆ obj ∧
      ∀ entry ∈ obj, (entry.1 ∈ keys ∧ (removeFirst keys obj).1 = some entry.2) ∨
        entry ∈ (removeFirst keys obj).2 := by
  induction keys with
  | nil => exact ⟨hkeys, fun _ h => h, fun _ h => .inr h⟩
  | cons key keys ih =>
    rw [removeFirst]
    cases hlookup : obj.lookup key with
    | some value =>
      refine ⟨hkeys.sublist (filter_sublist.map _), filter_sublist.subset, fun entry h => ?_⟩
      by_cases hkey : entry.1 = key
      · rw [← hkey, lookup_of_mem hkeys h] at hlookup
        exact .inl ⟨hkey ▸ mem_cons_self, hlookup.symm⟩
      · exact .inr (mem_filter.mpr ⟨h, decide_eq_true hkey⟩)
    | none =>
      refine ⟨ih.1, ih.2.1, fun entry h => (ih.2.2 entry h).imp_left ?_⟩
      exact fun htaken => ⟨mem_cons_of_mem _ htaken.1, htaken.2⟩

theorem ne_of_mem_removeFirst (hkeys : (obj.map Prod.fst).Nodup)
    (h : entry ∈ (removeFirst [key] obj).2) : entry.1 ≠ key := by
  rintro rfl
  have hmem := (removeFirst_spec [entry.1] hkeys).2.1 h
  rw [removeFirst, lookup_of_mem hkeys hmem] at h
  simpa using (mem_filter.mp h).2

theorem recovered_iff (hkeys : (obj.map Prod.fst).Nodup) (h : entry ∈ obj) :
    Recovered toString (ofObject toString obj) entry ↔ Liftable toString entry := by
  obtain ⟨hkeys₁, -, hlevel⟩ := removeFirst_spec ["level"] hkeys
  obtain ⟨hkeys₂, hsub₂, htext⟩ := removeFirst_spec ["msg", "message", "text"] hkeys₁
  obtain ⟨hkeys₃, hsub₃, hcorrelation⟩ := removeFirst_spec ["correlation_id"] hkeys₂
  obtain ⟨hkeys₄, hsub₄, hschema⟩ := removeFirst_spec ["schema_id"] hkeys₃
  obtain ⟨-, hsub₅, htags⟩ := removeFirst_spec ["tags"] hkeys₄
  constructor
  · rintro (⟨-, hname⟩ | ⟨hkey, -⟩ | - | - | - | ⟨⟨⟩, hmem⟩)
    · exact ⟨fun _ => ⟨_, hname⟩, by simp⟩
    · constructor <;> rintro rfl <;> exact absurd hkey (by decide)
    · simp [Liftable]
    · simp [Liftable]
    · exact ⟨by simp, fun _ => ⟨_, rfl⟩⟩
    · have hbehind := hsub₂ (hsub₃ (hsub₄ (hsub₅ hmem)))
      exact ⟨fun h => absurd h (ne_of_mem_removeFirst hkeys hbehind),
        fun h => absurd h (ne_of_mem_removeFirst hkeys₄ hmem)⟩
  · rintro ⟨hname, htexts⟩
    obtain ⟨key, value⟩ := entry
    -- A step takes the entry, or the entry is still there behind it.
    rcases hlevel _ h with ⟨hkey, hvalue⟩ | h
    · obtain rfl := mem_singleton.mp hkey
      obtain ⟨l, hl⟩ := hname rfl
      refine .level ?_ hl
      show ((removeFirst ["level"] obj).1.map (textOf toString)).bind parseLevel = _
      rw [hvalue, Option.map_some, hl, Option.bind_some, parseLevel_levelToken]
    rcases htext _ h with ⟨hkey, hvalue⟩ | h
    · exact .text hkey (congrArg (Option.map _) hvalue)
    rcases hcorrelation _ h with ⟨hkey, hvalue⟩ | h
    · obtain rfl := mem_singleton.mp hkey
      exact .correlationId (congrArg (Option.map _) hvalue)
    rcases hschema _ h with ⟨hkey, hvalue⟩ | h
    · obtain rfl := mem_singleton.mp hkey
      exact .schemaId (congrArg (Option.map _) hvalue)
    rcases htags _ h with ⟨hkey, hvalue⟩ | h
    · obtain rfl := mem_singleton.mp hkey
      obtain ⟨tags, rfl⟩ := htexts rfl
      have htagged : (ofObject toString obj).tags = tags := by
        rw [← tagsOf_array tags]
        exact congrArg (fun v => (v.map tagsOf).getD []) hvalue
      exact htagged ▸ .tags
    · exact .kept rfl h

/-- All that an object says can be read off its record exactly when its level is spelled as the
record spells it and its tags are texts. -/
theorem decode_recovers_iff {frame : Bytes} (hframe : trimWs frame ≠ [])
    (hparse : fromSlice (trimWs frame) = some (.object obj)) (hkeys : (obj.map Prod.fst).Nodup) :
    ∃ r, decode toString fromSlice frame = some r ∧
      ((∀ entry ∈ obj, Recovered toString r entry) ↔ ∀ entry ∈ obj, Liftable toString entry) := by
  refine ⟨ofObject toString obj, ?_, forall₂_congr fun entry h => recovered_iff hkeys h⟩
  rw [decode, if_neg hframe, hparse]

/-- A parser that knows one text. -/
def parsing (json : Text) (obj : Entries) (bytes : Bytes) : Option JsonValue :=
  if bytes = Lines.encode json then some (.object obj) else none

def hotFrame : Text :=
  "\x7b\"level\":\"warn\",\"msg\":\"hot\",\"tags\":[\"cpu\",\"fan\"],\"celsius\":91\x7d".toList

def hotEntries : Entries :=
  [("level", .string "warn"), ("msg", .string "hot"),
    ("tags", .array [.string "cpu", .string "fan"]), ("celsius", .number "91")]

theorem decode_recovers_hot :
    ∃ r, decode (fun _ => "") (parsing hotFrame hotEntries) (Lines.encode hotFrame) = some r ∧
      ∀ entry ∈ hotEntries, Recovered (fun _ => "") r entry := by
  have hlift : ∀ entry ∈ hotEntries, Liftable (fun _ => "") entry := by
    have hlevel : textOf (fun _ => "") (.string "warn") = levelToken .warn := rfl
    have htags : JsonValue.array [.string "cpu", .string "fan"] =
        .array (["cpu", "fan"].map .string) := rfl
    simp only [hotEntries, forall_mem_cons]
    exact ⟨⟨fun _ => ⟨_, hlevel⟩, by simp⟩, by simp [Liftable], ⟨by simp, fun _ => ⟨_, htags⟩⟩,
      by simp [Liftable], by simp⟩
  have htrim : trimWs (Lines.encode hotFrame) = Lines.encode hotFrame := by decide +kernel
  obtain ⟨r, hdecode, hiff⟩ : ∃ r, decode (fun _ => "") (parsing hotFrame hotEntries)
      (Lines.encode hotFrame) = some r ∧ ((∀ entry ∈ hotEntries, Recovered (fun _ => "") r entry) ↔
        ∀ entry ∈ hotEntries, Liftable (fun _ => "") entry) :=
    decode_recovers_iff (by decide +kernel) (by rw [htrim, parsing, if_pos rfl]) (by decide)
  exact ⟨r, hdecode, hiff.mpr hlift⟩

def verboseFrame : Text := "\x7b\"level\":\"verbose\"\x7d".toList

def verboseEntries : Entries := [("level", .string "verbose")]

/-- A level that the decoder does not know is neither in the record nor in its fields. -/
theorem verbose_lost :
    ∃ r, decode (fun _ => "") (parsing verboseFrame verboseEntries) (Lines.encode verboseFrame) =
        some r ∧ r.level = none ∧ r.fields = .object [] ∧
      ¬ Recovered (fun _ => "") r ("level", .string "verbose") := by
  refine ⟨ofObject (fun _ => "") verboseEntries, ?_, by decide +kernel, rfl, fun h => ?_⟩
  · have htrim : trimWs (Lines.encode verboseFrame) = Lines.encode verboseFrame := by decide +kernel
    rw [decode, if_neg (by decide +kernel), htrim, parsing, if_pos rfl]
  · obtain ⟨l, hl⟩ := ((recovered_iff (by decide) mem_cons_self).mp h).1 rfl
    revert hl
    cases l <;> decide

end TraceMux.Core.JsonLines
