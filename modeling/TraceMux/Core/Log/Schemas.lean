/-
# The schemas of a session

A session keeps each schema in a file with its id in the name. A registry that is opened over
the directory takes every id with a file for registered and does not look into the files. What
a crash or a failing write has left of a schema is therefore taken for the schema, and no later
registration writes it again.
-/

import Mathlib.Data.List.AList
import TraceMux.Base.ByteFile
import TraceMux.Base.Text
import TraceMux.Base.Transition

namespace TraceMux.Core.Log.Schemas

open Base

/-- The files of the directory by their names. A name that is not text never counts. -/
abbrev Directory := AList fun _ : Text => Bytes

structure SchemaRegistry where
  dir : List Text
  written : List Text
  deriving DecidableEq, Repr

inductive SchemaError
  | invalidInput (message : String)
  | io (reason : String)
  deriving DecidableEq, Repr

/-- Open a registry; `fault` is why the directory cannot be made or read, if it cannot. -/
def create (sessionDir : List Text) (fault : Option String) (files : Directory) :
    Except SchemaError SchemaRegistry :=
  match fault with
  | some reason => .error (.io reason)
  | none =>
    .ok ⟨sessionDir ++ ["schemas".toList],
      files.keys.filterMap fun name => name.dropSuffix? ".json".toList⟩

def isSafeId (id : Text) : Bool :=
  if id = [] ∨ id = ['.'] ∨ id = ['.', '.'] then false
  else
    (id.all fun c => c.isAlphanum || c = '-' || c = '_' || c = '.' || c = ':') &&
      !decide (['.', '.'] <:+: id)

/-- Ways in which writing a file fails, with what the system says. -/
inductive WriteFault
  | create (reason : String)
  /-- The content is cut: at most so many bytes are written, and never all. -/
  | write (count : ℕ) (reason : String)
  deriving DecidableEq, Repr

def fileName (id : Text) : Text := id ++ ".json".toList

def register (fault : Option WriteFault) (registry : SchemaRegistry) (files : Directory)
    (id : Text) (schema : Bytes) : Except SchemaError (List Text) × SchemaRegistry × Directory :=
  if !isSafeId id then
    (.error (.invalidInput "schema id contains forbidden characters"), registry, files)
  else
    let path := registry.dir ++ [fileName id]
    if registry.written.contains id then (.ok path, registry, files)
    else
      match fault with
      | some (.create reason) => (.error (.io reason), registry, files)
      | some (.write count reason) =>
        (.error (.io reason), registry,
          files.insert (fileName id) (schema.take (min count (schema.length - 1))))
      | none =>
        (.ok path, { registry with written := id :: registry.written },
          files.insert (fileName id) schema)

variable {sessionDir : List Text} {files : Directory} {registry : SchemaRegistry} {id : Text}

theorem mem_written_iff (h : create sessionDir none files = .ok registry) :
    id ∈ registry.written ↔ fileName id ∈ files := by
  cases h
  rw [List.mem_filterMap, AList.mem_keys]
  constructor
  · rintro ⟨name, hname, hid⟩
    obtain ⟨ending, rfl, hending⟩ := List.dropSuffix?_eq_some_iff.mp hid
    rwa [eq_of_beq hending] at hname
  · intro hname
    exact ⟨_, hname, List.dropSuffix?_eq_some_iff.mpr ⟨_, rfl, beq_self_eq_true _⟩⟩

/-- A schema that is registered again after reopening is complete if no file was there or a
complete one, and only then. -/
theorem complete_reopened_iff (sessionDir : List Text) (files : Directory) (id : Text)
    (schema : Bytes) :
    (create sessionDir none files).map (fun registry =>
        (register none registry files id schema).2.2.lookup (fileName id)) = .ok (some schema) ↔
      files.lookup (fileName id) = some schema ∨
        isSafeId id = true ∧ files.lookup (fileName id) = none := by
  obtain ⟨registry, hregistry⟩ : ∃ registry, create sessionDir none files = .ok registry := ⟨_, rfl⟩
  rw [hregistry, Except.map, Except.ok.injEq, AList.lookup_eq_none, ← mem_written_iff hregistry]
  cases hsafe : isSafeId id with
  | false => simp [register, hsafe]
  | true => by_cases hwritten : id ∈ registry.written <;> simp [register, hsafe, hwritten]

/-- Half of a schema is left by a write, and the registry that is opened then reports the schema
as registered. -/
theorem partial_schema_kept :
    ∃ registry, create [] none ∅ = .ok registry ∧
      let cut := register (some (.write 1 "disk full")) registry ∅ ['a'] [123, 125]
      cut.1 = .error (.io "disk full") ∧ cut.2.2.lookup (fileName ['a']) = some [123] ∧
        ∃ reopened, create [] none cut.2.2 = .ok reopened ∧
          let again := register none reopened cut.2.2 ['a'] [123, 125]
          again.1 = .ok ["schemas".toList, fileName ['a']] ∧
            again.2.2.lookup (fileName ['a']) = some [123] :=
  ⟨_, rfl, rfl, rfl, _, rfl, rfl, rfl⟩

/-- What is done in a session. A crash is a write that is cut, and reopening behind it. -/
inductive Action
  | reopen
  | register (fault : Option WriteFault) (id : Text) (schema : Bytes)

def step (sessionDir : List Text) (s : SchemaRegistry × Directory) :
    Action → Option (SchemaRegistry × Directory)
  | .reopen => (create sessionDir none s.2).toOption.map fun registry => (registry, s.2)
  | .register fault id schema => some (register fault s.1 s.2 id schema).2

/-- The id counts as registered, with a file that holds the content. -/
def Registered (id : Text) (content : Bytes) (s : SchemaRegistry × Directory) : Prop :=
  id ∈ s.1.written ∧ s.2.lookup (fileName id) = some content

variable {content : Bytes}

theorem registered_of_create (hopen : create sessionDir none files = .ok registry)
    (hfile : files.lookup (fileName id) = some content) :
    Registered id content (registry, files) :=
  ⟨(mem_written_iff hopen).mpr (AList.lookup_isSome.mp (hfile ▸ rfl)), hfile⟩

theorem Registered.register {s : SchemaRegistry × Directory} (h : Registered id content s)
    (fault : Option WriteFault) (id' : Text) (schema : Bytes) :
    Registered id content (register fault s.1 s.2 id' schema).2 := by
  unfold Schemas.register
  split
  · exact h
  · split
    · exact h
    · next hnew =>
      -- Another id has another file.
      have hname : fileName id ≠ fileName id' := by
        intro hname
        exact hnew (List.contains_iff_mem.mpr (List.append_cancel_right hname ▸ h.1))
      have hlookup (written : Bytes) :
          (s.2.insert (fileName id') written).lookup (fileName id) = some content := by
        rw [AList.lookup_insert_ne hname, h.2]
      match fault with
      | some (.create _) => exact h
      | some (.write _ _) => exact ⟨h.1, hlookup _⟩
      | none => exact ⟨List.mem_cons_of_mem _ h.1, hlookup _⟩

/-- What a file holds when the registry is opened, it holds for ever. -/
theorem registered_of_exec (hopen : create sessionDir none files = .ok registry)
    (hfile : files.lookup (fileName id) = some content) {actions : List Action}
    {s : SchemaRegistry × Directory}
    (h : Transition.exec (step sessionDir) (registry, files) actions = some s) :
    Registered id content s := by
  refine Transition.exec_keeps (fun {s a s'} hs hstep => ?_) (registered_of_create hopen hfile) h
  cases a with
  | reopen =>
    cases hstep
    exact registered_of_create rfl hs.2
  | register fault id' schema =>
    cases hstep
    exact hs.register fault id' schema

/-- Half of a schema is there. It is never completed. -/
theorem registered_half :
    ∃ registry s, create [] none (AList.singleton (fileName ['a']) [123]) = .ok registry ∧
      Transition.exec (step []) (registry, AList.singleton (fileName ['a']) [123])
        [.register none ['a'] [123, 125], .reopen, .register none ['a'] [123, 125]] = some s ∧
      Registered ['a'] [123] s := by
  refine ⟨_, ?s, rfl, ?run, registered_of_exec rfl rfl ?run⟩
  case run => rfl

end TraceMux.Core.Log.Schemas
