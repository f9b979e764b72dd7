/-
# Annotations

Notes on sessions and log types are kept in memory by their ids and in one file, a line of JSON
for each. Every change writes the whole set: to a new file first, which then takes the place of
the old one. The old file is removed before the new one is renamed, and between these two steps
there is no file.

A change goes into memory before it is written, and stays there when writing it fails.

The file is reached by its name in the metadata directory. A step of the file system can fail,
or the program can end in it; either way the steps before it are done, a write may have left
the beginning of what it was to write, and a removal or a rename that did not succeed has not
happened. The JSON library is a parameter, with one law: a line that it wrote for an annotation
is read back as that annotation.
-/

import TraceMux.Base.Transition
import TraceMux.Base.TreeMap
import TraceMux.Server.ExportApi

namespace TraceMux.Server.AnnotationApi

open Base TraceMux.Core Server.Auth Function
open Server.ExportApi (StatusCode HeaderMap Libraries bearerToken)

/-! ## Annotations -/

def maxAnnotationTextLen : ℕ := 20000

def maxLogTypeKeyLen : ℕ := 120

def annotationsFile : String := "annotations-v1.jsonl"

inductive AnnotationTargetKind
  | session
  | logType
  deriving DecidableEq, Repr

structure AnnotationTarget where
  kind : AnnotationTargetKind
  sid : Option Uuid := none
  key : Option String := none
  deriving DecidableEq, Repr

/-- Nanoseconds since the Unix epoch. -/
abbrev OffsetDateTime := ℤ

structure Annotation where
  id : Uuid
  target : AnnotationTarget
  text : String
  updatedAt : OffsetDateTime
  updatedBy : Option String
  deleted : Bool
  deriving DecidableEq, Repr

structure AnnotationApiError where
  status : StatusCode
  errorId : String
  message : String
  deriving DecidableEq, Repr

namespace AnnotationApiError

/-- A request that cannot be understood. -/
def badRequest (message : String) : AnnotationApiError := ⟨.badRequest, "E-2001", message⟩

/-- A request about what is not there. -/
def notFound (message : String) : AnnotationApiError := ⟨.notFound, "E-1001", message⟩

def internal (message : String) : AnnotationApiError := ⟨.internalServerError, "E-1001", message⟩

/-- A request without the right to what it asks for. -/
def auth (message : String) : AnnotationApiError := ⟨.unauthorized, "E-2101", message⟩

end AnnotationApiError

def storeError (error : String) : AnnotationApiError :=
  .internal s!"annotation store failed: {error}"

def normalizeTarget (target : AnnotationTarget) : Except AnnotationApiError AnnotationTarget :=
  match target.kind with
  | .session =>
    match target.sid with
    | none => .error (.badRequest "session annotations require target.sid")
    | some sid => .ok { kind := .session, sid := some sid, key := none }
  | .logType =>
    let key := Text.trim (target.key.getD "").toList
    if key = [] then .error (.badRequest "log_type annotations require target.key")
    else if maxLogTypeKeyLen < key.length then
      .error (.badRequest s!"log_type target.key must be at most {maxLogTypeKeyLen} characters")
    else .ok { kind := .logType, sid := target.sid, key := some (String.ofList key) }

def normalizeText (text : String) : Except AnnotationApiError String :=
  if maxAnnotationTextLen < text.toList.length then
    .error (.badRequest s!"annotation text must be at most {maxAnnotationTextLen} characters")
  else .ok text

/-- The name of who made a change. -/
def normalizeActor (actor : String) : Option String :=
  let actor := Text.trim actor.toList
  if actor = [] then none else some (String.ofList (actor.take 120))

/-! ## Sets of annotations -/

/-- Annotations by their ids. A deleted annotation is not kept. -/
@[ext]
structure Annotations where
  map : Std.ExtTreeMap Uuid Annotation
  wf : ∀ (id : Uuid) a, map[id]? = some a → a.id = id ∧ a.deleted = false

namespace Annotations

def empty : Annotations := ⟨∅, by simp⟩

def insert (m : Annotations) (a : Annotation) (h : a.deleted = false) : Annotations where
  map := m.map.insert a.id a
  wf := by
    intro id b hb
    rw [Std.ExtTreeMap.getElem?_insert] at hb
    split at hb
    · next heq =>
      cases hb
      exact ⟨Std.LawfulEqOrd.eq_of_compare heq, h⟩
    · exact m.wf id b hb

def remove (m : Annotations) (id : Uuid) : Annotations where
  map := m.map.erase id
  wf := by
    intro other b hb
    rw [Std.ExtTreeMap.getElem?_erase] at hb
    split at hb
    · cases hb
    · exact m.wf other b hb

def values (m : Annotations) : List Annotation := TreeMap.values m.map

variable {m : Annotations}

theorem deleted_of_mem_values {a : Annotation} (h : a ∈ m.values) : a.deleted = false := by
  obtain ⟨id, hentry⟩ := TreeMap.mem_values.mp h
  exact (m.wf id a hentry).2

theorem filter_values (m : Annotations) : m.values.filter (!·.deleted) = m.values := by
  rw [List.filter_eq_self]
  intro a ha
  rw [deleted_of_mem_values ha]
  rfl

theorem ofList_values (m : Annotations) :
    .ofList (m.values.map fun a => (a.id, a)) = m.map := by
  have hentries := TreeMap.toList_eq_map_values Annotation.id fun id a ha => (m.wf id a ha).1
  rw [values, ← hentries]
  exact TreeMap.ofList_toList m.map

theorem values_injective {n : Annotations} (h : m.values = n.values) : m = n := by
  apply Annotations.ext
  rw [← ofList_values, h, ofList_values]

end Annotations

/-! ## The file -/

/-- The JSON library, for annotations. -/
structure AnnotationCodec where
  toString : Annotation → Except String Text
  fromStr : Text → Except String Annotation

/-- An annotation is written as one object on one line, from which it is read back. -/
def AnnotationCodec.Lawful (codec : AnnotationCodec) : Prop :=
  ∀ a line, codec.toString a = .ok line →
    codec.fromStr line = .ok a ∧ '\n' ∉ line ∧ ∃ inner, line = '\x7b' :: inner ++ ['\x7d']

/-- The loop over the lines of a file. -/
def loadLines (codec : AnnotationCodec) (path : String) :
    ℕ → List Text → Annotations → Except AnnotationApiError Annotations
  | _, [], out => .ok out
  | index, line :: rest, out =>
    let line := Text.trim line
    if line = [] then loadLines codec path (index + 1) rest out
    else
      match codec.fromStr line with
      | .error e =>
        .error (.internal s!"reading annotation line {index + 1} from {path}: {e}")
      | .ok annotation =>
        if h : annotation.deleted = true then
          loadLines codec path (index + 1) rest (out.remove annotation.id)
        else
          loadLines codec path (index + 1) rest (out.insert annotation (eq_false_of_ne_true h))

def loadAnnotations (codec : AnnotationCodec) (path : String) (file : Option Bytes) :
    Except AnnotationApiError Annotations :=
  match file with
  | none => .ok .empty
  | some bytes =>
    match Lines.decode bytes with
    | .error e => .error (storeError e.display)
    | .ok text => loadLines codec path 0 (Text.lines text.toList) .empty

def bodyOf (codec : AnnotationCodec) : List Annotation → Except String Text
  | [] => .ok []
  | a :: rest =>
    match codec.toString a with
    | .error e => .error e
    | .ok line => (bodyOf codec rest).map fun body => line ++ '\n' :: body

abbrev Dir := String → Option Bytes

def tmpName (uuid : Uuid) : String :=
  annotationsFile ++ String.ofList (".tmp-".toList ++ uuid.hyphenated)

/-- A step of writing the file that does not succeed. -/
inductive PersistStep
  | createDirAll
  /-- The beginning of the content, as long as given, may get to the new file. -/
  | write (count : ℕ)
  | removeFile
  | rename
  deriving DecidableEq, Repr

def removeOld (fault : Option (PersistStep × String)) (dir : Dir) : Except String Dir :=
  if (dir annotationsFile).isSome then
    match fault with
    | some (.removeFile, e) => .error e
    | _ => .ok (Function.update dir annotationsFile none)
  else .ok dir

/-- Put the new file in the place of the old one. -/
def replaceOld (tmp : Uuid) (fault : Option (PersistStep × String)) (dir : Dir) :
    Except AnnotationApiError Unit × Dir :=
  match removeOld fault dir with
  | .error e => (.error (storeError e), dir)
  | .ok dir =>
    match fault with
    | some (.rename, e) => (.error (storeError e), dir)
    | _ =>
      (.ok (), Function.update (Function.update dir (tmpName tmp) none) annotationsFile
        (dir (tmpName tmp)))

/-- Write the file. The fault names a step and what the system says when it fails. -/
def persistLocked (codec : AnnotationCodec) (tmp : Uuid) (fault : Option (PersistStep × String))
    (annotations : Annotations) (dir : Dir) : Except AnnotationApiError Unit × Dir :=
  match fault with
  | some (.createDirAll, e) => (.error (storeError e), dir)
  | _ =>
    match bodyOf codec (annotations.values.filter (!·.deleted)) with
    | .error e => (.error (storeError e), dir)
    | .ok body =>
      match fault with
      | some (.write count, e) =>
        (.error (storeError e),
          Function.update dir (tmpName tmp) (some ((Lines.encode body).take count)))
      | _ =>
        replaceOld tmp fault
          (Function.update dir (tmpName tmp) (some (Lines.encode body)))

/-! ## The store -/

/-- An open store, with the directory it writes to. -/
structure AnnotationStore where
  path : String
  annotations : Annotations
  dir : Dir

namespace AnnotationStore

def openStore (codec : AnnotationCodec) (path : String) (dir : Dir) :
    Except AnnotationApiError AnnotationStore :=
  (loadAnnotations codec path (dir annotationsFile)).map fun annotations =>
    ⟨path, annotations, dir⟩

def annotationVisibleForSid (item : Annotation) : Option Uuid → Bool
  | none => true
  | some sid =>
    match item.target.kind with
    | .session => item.target.sid = some sid
    | .logType => item.target.sid.isNone || item.target.sid = some sid

/-- The annotations that are shown for a session, or all of them. -/
def list (store : AnnotationStore) (sid : Option Uuid) : List Annotation :=
  (store.annotations.values.filter (!·.deleted)).filter (annotationVisibleForSid · sid)

/-- Create or replace an annotation. -/
def upsert (codec : AnnotationCodec) (tmp : Uuid) (fault : Option (PersistStep × String))
    (store : AnnotationStore) (id : Uuid) (target : AnnotationTarget) (text : String)
    (updatedBy : Option String) (updatedAt : OffsetDateTime) :
    Except AnnotationApiError Annotation × AnnotationStore :=
  match normalizeTarget target with
  | .error e => (.error e, store)
  | .ok target =>
    match normalizeText text with
    | .error e => (.error e, store)
    | .ok text =>
      let annotation : Annotation :=
        { id := id, target := target, text := text, updatedAt := updatedAt
          updatedBy := updatedBy.bind normalizeActor, deleted := false }
      let annotations := store.annotations.insert annotation rfl
      let persisted := persistLocked codec tmp fault annotations store.dir
      (persisted.1.map fun _ => annotation,
        { store with annotations := annotations, dir := persisted.2 })

/-- Delete an annotation, and say whether there was one. -/
def delete (codec : AnnotationCodec) (tmp : Uuid) (fault : Option (PersistStep × String))
    (store : AnnotationStore) (id : Uuid) : Except AnnotationApiError Bool × AnnotationStore :=
  if (store.annotations.map[id]?).isSome then
    let annotations := store.annotations.remove id
    let persisted := persistLocked codec tmp fault annotations store.dir
    (persisted.1.map fun _ => true, { store with annotations := annotations, dir := persisted.2 })
  else (.ok false, store)

end AnnotationStore

/-! ## The routes -/

/-- The part of the route state that never changes. -/
structure AnnotationRouteState where
  auth : BearerVerifier := {}
  noAuth : Bool := false
  deriving DecidableEq, Repr

/-- Whether a request may see or change annotations. -/
def authorizeAnnotations (lib : Libraries) (state : AnnotationRouteState) (headers : HeaderMap)
    (peer : IpAddr) : Except AnnotationApiError Unit :=
  if state.noAuth && isLoopbackAllowed peer then .ok ()
  else
    match bearerToken headers with
    | none => .error (.auth "missing bearer token")
    | some token =>
      match state.auth.verify lib.argon2 token with
      | .ok () => .ok ()
      | .error _ => .error (.auth "bearer token rejected")

/-- Read the id of a session, unless it is blank. -/
def parseOptionalSid (lib : Libraries) (value : Option String) :
    Except AnnotationApiError (Option Uuid) :=
  match value.map fun sid => Text.trim sid.toList with
  | none => .ok none
  | some [] => .ok none
  | some sid =>
    match lib.parseUuid (String.ofList sid) with
    | .ok sid => .ok (some sid)
    | .error reason =>
      .error (.badRequest ("invalid sid `" ++ String.ofList sid ++ "`: " ++ reason))

/-- Answer a request for the annotations of a session, or for all. -/
def listHandler (lib : Libraries) (state : AnnotationRouteState) (store : AnnotationStore)
    (headers : HeaderMap) (peer : IpAddr) (sid : Option String) :
    Except AnnotationApiError (List Annotation) := do
  authorizeAnnotations lib state headers peer
  let sid ← parseOptionalSid lib sid
  return store.list sid

def parseAnnotationId (lib : Libraries) (value : String) : Except AnnotationApiError Uuid :=
  let value := String.ofList (Text.trim value.toList)
  match lib.parseUuid value with
  | .ok id => .ok id
  | .error reason => .error (.badRequest ("invalid annotation id `" ++ value ++ "`: " ++ reason))

/-- The body of a request to create or replace an annotation. -/
structure AnnotationUpsertRequest where
  target : AnnotationTarget
  text : String
  updatedBy : Option String := none
  deriving DecidableEq, Repr

/-- A request that changes annotations, with the id as it stands in the path. -/
inductive ChangeRequest
  | upsert (idText : String) (request : AnnotationUpsertRequest) (nowUtc : OffsetDateTime)
  | delete (idText : String)
  deriving DecidableEq, Repr

inductive Response
  | saved (item : Annotation)
  | noContent
  | error (e : AnnotationApiError)
  deriving DecidableEq, Repr

/-- Carry out a request that was authorised and has an id. -/
def change (codec : AnnotationCodec) (tmp : Uuid) (fault : Option (PersistStep × String))
    (store : AnnotationStore) (id : Uuid) : ChangeRequest → Response × AnnotationStore
  | .upsert _ request nowUtc =>
    let (result, store) :=
      store.upsert codec tmp fault id request.target request.text request.updatedBy nowUtc
    match result with
    | .ok annotation => (.saved annotation, store)
    | .error e => (.error e, store)
  | .delete _ =>
    let (result, store) := store.delete codec tmp fault id
    match result with
    | .ok true => (.noContent, store)
    | .ok false =>
      (.error (.notFound ("annotation `" ++ String.ofList id.hyphenated ++ "` was not found")),
        store)
    | .error e => (.error e, store)

def ChangeRequest.idText : ChangeRequest → String
  | .upsert idText _ _ => idText
  | .delete idText => idText

/-- Who a request comes from. -/
structure Caller where
  headers : HeaderMap := {}
  peer : IpAddr
  deriving DecidableEq, Repr

def handle (lib : Libraries) (codec : AnnotationCodec) (state : AnnotationRouteState)
    (tmp : Uuid) (fault : Option (PersistStep × String)) (store : AnnotationStore)
    (caller : Caller) (request : ChangeRequest) : Response × AnnotationStore :=
  match authorizeAnnotations lib state caller.headers caller.peer with
  | .error e => (.error e, store)
  | .ok () =>
    match parseAnnotationId lib request.idText with
    | .error e => (.error e, store)
    | .ok id => change codec tmp fault store id request

/-! ## What writing the file does to it -/

/-- Writing these annotations fails at the last step: everything before it was done. -/
def FailsAtRename (codec : AnnotationCodec) (fault : Option (PersistStep × String))
    (annotations : Annotations) : Prop :=
  (∃ e, fault = some (.rename, e)) ∧ ∃ body, bodyOf codec annotations.values = .ok body

/-- The outcomes of writing the file. -/
inductive Persisted (codec : AnnotationCodec) (fault : Option (PersistStep × String))
    (annotations : Annotations) (dir : Dir) : Except AnnotationApiError Unit × Dir → Prop
  | kept {e : AnnotationApiError} {dir' : Dir} (h : ¬ FailsAtRename codec fault annotations)
      (hfile : dir' annotationsFile = dir annotationsFile) :
      Persisted codec fault annotations dir (.error e, dir')
  /-- The old file was removed and the new one is not in its place. -/
  | gone {e : AnnotationApiError} {dir' : Dir} (h : FailsAtRename codec fault annotations)
      (hfile : dir' annotationsFile = none) :
      Persisted codec fault annotations dir (.error e, dir')
  | saved {body : Text} {dir' : Dir} (h : ¬ FailsAtRename codec fault annotations)
      (hbody : bodyOf codec annotations.values = .ok body)
      (hfile : dir' annotationsFile = some (Lines.encode body)) :
      Persisted codec fault annotations dir (.ok (), dir')

theorem annotationsFile_ne_tmpName (uuid : Uuid) : annotationsFile ≠ tmpName uuid := by
  intro h
  have hlength := congrArg String.length h
  simp [tmpName, String.length_append] at hlength

variable {fault : Option (PersistStep × String)} {dir : Dir} {body : Text}
  {annotations : Annotations} {tmp id : Uuid} {store : AnnotationStore} {request : ChangeRequest}

theorem removeOld_ok {dir' : Dir} (h : removeOld fault dir = .ok dir') :
    dir' annotationsFile = none ∧ ∀ name ≠ annotationsFile, dir' name = dir name := by
  unfold removeOld at h
  split at h
  · split at h
    · cases h
    · cases h
      exact ⟨update_self .., fun name hname => update_of_ne hname ..⟩
  · next hnone =>
    cases h
    exact ⟨Option.not_isSome_iff_eq_none.mp hnone, fun _ _ => rfl⟩

theorem removeOld_error {e : String} (h : removeOld fault dir = .error e) :
    fault = some (.removeFile, e) := by
  unfold removeOld at h
  split at h
  · split at h
    · cases h
      rfl
    · cases h
  · cases h

theorem persisted (codec : AnnotationCodec) (tmp : Uuid) (fault : Option (PersistStep × String))
    (annotations : Annotations) (dir : Dir) :
    Persisted codec fault annotations dir (persistLocked codec tmp fault annotations dir) := by
  have hname := annotationsFile_ne_tmpName tmp
  have hother : ∀ content,
      update dir (tmpName tmp) content annotationsFile = dir annotationsFile :=
    fun content => update_of_ne hname ..
  unfold persistLocked
  rw [annotations.filter_values]
  split
  · exact .kept (by rintro ⟨⟨_, h⟩, -⟩; cases h) rfl
  · split
    · next hbody =>
      exact .kept (by rintro ⟨-, _, h⟩; rw [hbody] at h; cases h) rfl
    · next body hbody =>
      split
      · exact .kept (by rintro ⟨⟨_, h⟩, -⟩; cases h) (hother _)
      · -- The new file is written and is to take the place of the old one.
        unfold replaceOld
        cases hremove : removeOld fault (update dir (tmpName tmp) (some (Lines.encode body))) with
        | error e =>
          refine .kept ?_ (hother _)
          rintro ⟨⟨_, h⟩, -⟩
          rw [removeOld_error hremove] at h
          cases h
        | ok dir' =>
          obtain ⟨hnone, hsame⟩ := removeOld_ok hremove
          simp only
          split
          · exact .gone ⟨⟨_, rfl⟩, body, hbody⟩ hnone
          · next hno =>
            refine .saved (fun h => h.1.elim hno) hbody ?_
            rw [update_self, hsame _ hname.symm, update_self]

theorem trim_object (inner : Text) :
    Text.trim ('\x7b' :: inner ++ ['\x7d']) = '\x7b' :: inner ++ ['\x7d'] := by
  apply Text.trimMatches_eq_self
  · rintro c ⟨⟩
    decide
  · intro c hc
    rw [List.getLast?_concat] at hc
    cases hc
    decide

/-- The loop over lines that were written puts in the annotations they were written for. -/
theorem loadLines_body {codec : AnnotationCodec} (hcodec : codec.Lawful) (path : String)
    {annotations : List Annotation} (hbody : bodyOf codec annotations = .ok body)
    (hdeleted : ∀ a ∈ annotations, a.deleted = false) (index : ℕ) (out : Annotations) :
    ∃ loaded, loadLines codec path index (Text.lines body) out = .ok loaded ∧
      loaded.map = out.map.insertMany (annotations.map fun a => (a.id, a)) := by
  induction annotations generalizing body index out with
  | nil =>
    cases hbody
    exact ⟨out, rfl, rfl⟩
  | cons a rest ih =>
    rw [bodyOf] at hbody
    split at hbody
    · cases hbody
    · next line hline =>
      cases hrest : bodyOf codec rest with
      | error e =>
        rw [hrest] at hbody
        cases hbody
      | ok restBody =>
        rw [hrest, Except.map, Except.ok.injEq] at hbody
        subst hbody
        obtain ⟨hread, hlf, inner, rfl⟩ := hcodec a line hline
        have hcr : ('\x7b' :: inner ++ ['\x7d']).getLast? ≠ some '\r' := by
          rw [List.getLast?_concat]
          decide
        have ha : a.deleted = false := hdeleted a List.mem_cons_self
        obtain ⟨loaded, hload, hmap⟩ := ih hrest
          (fun b hb => hdeleted b (List.mem_cons_of_mem _ hb)) (index + 1) (out.insert a ha)
        refine ⟨loaded, ?_, ?_⟩
        · rw [Text.lines_line hlf hcr, loadLines]
          simp only [trim_object, hread, ha, Bool.false_eq_true, dif_neg, not_false_eq_true]
          exact hload
        · rw [hmap, List.map_cons, Std.ExtTreeMap.insertMany_cons]
          rfl

theorem loadAnnotations_saved {codec : AnnotationCodec} (hcodec : codec.Lawful) (path : String)
    (hbody : bodyOf codec annotations.values = .ok body) :
    loadAnnotations codec path (some (Lines.encode body)) = .ok annotations := by
  obtain ⟨loaded, hload, hmap⟩ := loadLines_body hcodec path hbody
    (fun _ ha => Annotations.deleted_of_mem_values ha) 0 .empty
  have hloaded : loaded = annotations := by
    apply Annotations.ext
    rw [hmap, ← annotations.ofList_values, Std.ExtTreeMap.ofList_eq_insertMany_empty]
    rfl
  rw [loadAnnotations]
  simp only [Lines.decode_encode, String.toList_ofList]
  rw [hload, hloaded]

/-! ## What a request asks for -/

/-- The set that a request asks to keep, if it gets as far as that. -/
def requestedSet (store : AnnotationStore) (id : Uuid) : ChangeRequest → Option Annotations
  | .upsert _ request nowUtc =>
    match normalizeTarget request.target, normalizeText request.text with
    | .ok target, .ok text =>
      some (store.annotations.insert
        { id := id, target := target, text := text, updatedAt := nowUtc
          updatedBy := request.updatedBy.bind normalizeActor, deleted := false } rfl)
    | _, _ => none
  | .delete _ =>
    if (store.annotations.map[id]?).isSome then some (store.annotations.remove id) else none

/-- The same for a request that may be turned away before. -/
def requested (lib : Libraries) (state : AnnotationRouteState) (store : AnnotationStore)
    (caller : Caller) (request : ChangeRequest) : Option Annotations :=
  match authorizeAnnotations lib state caller.headers caller.peer,
    parseAnnotationId lib request.idText with
  | .ok (), .ok id => requestedSet store id request
  | _, _ => none

/-- What comes of a request. One that asks for no set leaves the store as it is. One that asks for
a set keeps it in memory and writes it, and is answered with an error when writing fails. -/
def CarriedOut (codec : AnnotationCodec) (tmp : Uuid) (fault : Option (PersistStep × String))
    (store : AnnotationStore) : Option Annotations → Response × AnnotationStore → Prop
  | none, out => out.2 = store
  | some annotations, out =>
    out.2 = { store with
        annotations := annotations
        dir := (persistLocked codec tmp fault annotations store.dir).2 } ∧
      ((∃ e, out.1 = .error e) ↔
        ∃ e, (persistLocked codec tmp fault annotations store.dir).1 = .error e)

section Routes

variable {lib : Libraries} (codec : AnnotationCodec) {state : AnnotationRouteState} (tmp) (fault)
  {caller : Caller}

theorem change_carriedOut (id : Uuid) :
    CarriedOut codec tmp fault store (requestedSet store id request)
      (change codec tmp fault store id request) := by
  cases request with
  | upsert idText request nowUtc =>
    rw [requestedSet, change, AnnotationStore.upsert]
    cases normalizeTarget request.target with
    | error e => rfl
    | ok target =>
      cases normalizeText request.text with
      | error e => rfl
      | ok text =>
        simp only [CarriedOut]
        cases (persistLocked codec tmp fault _ store.dir).1 with
        | error e => exact ⟨rfl, iff_of_true ⟨e, rfl⟩ ⟨e, rfl⟩⟩
        | ok _ => exact ⟨rfl, by simp [Except.map]⟩
  | delete idText =>
    rw [requestedSet, change, AnnotationStore.delete]
    split
    · simp only [CarriedOut]
      cases (persistLocked codec tmp fault (store.annotations.remove id) store.dir).1 with
      | error e => exact ⟨rfl, iff_of_true ⟨e, rfl⟩ ⟨e, rfl⟩⟩
      | ok _ => exact ⟨rfl, by simp [Except.map]⟩
    · rfl

theorem handle_carriedOut {asked : Option Annotations}
    (h : requested lib state store caller request = asked) :
    CarriedOut codec tmp fault store asked
      (handle lib codec state tmp fault store caller request) := by
  subst h
  rw [handle, requested]
  cases authorizeAnnotations lib state caller.headers caller.peer with
  | error e => rfl
  | ok _ =>
    cases parseAnnotationId lib request.idText with
    | error e => rfl
    | ok id => exact change_carriedOut fault tmp codec id

end Routes

/-! ## Requests that are answered with an error -/

def AnnotationStore.reopened (codec : AnnotationCodec) (store : AnnotationStore) :
    Except AnnotationApiError Annotations :=
  (AnnotationStore.openStore codec store.path store.dir).map AnnotationStore.annotations

theorem AnnotationStore.reopened_eq (codec : AnnotationCodec) (store : AnnotationStore) :
    store.reopened codec = loadAnnotations codec store.path (store.dir annotationsFile) := by
  rw [reopened, openStore]
  cases loadAnnotations codec store.path (store.dir annotationsFile) with
  | error e => rfl
  | ok annotations => rfl

/-- Two stores show the same annotations, for every session, now and after they are opened
again. -/
def SameAnnotations (codec : AnnotationCodec) (before after : AnnotationStore) : Prop :=
  (∀ sid, after.list sid = before.list sid) ∧ after.reopened codec = before.reopened codec

theorem list_eq_iff {first second : AnnotationStore} :
    (∀ sid, first.list sid = second.list sid) ↔ first.annotations = second.annotations := by
  constructor
  · intro h
    have hall := h none
    have hvisible : ∀ annotations : List Annotation,
        annotations.filter (AnnotationStore.annotationVisibleForSid · none) = annotations :=
      fun annotations => List.filter_eq_self.mpr fun _ _ => rfl
    rw [AnnotationStore.list, AnnotationStore.list, hvisible, hvisible,
      Annotations.filter_values, Annotations.filter_values] at hall
    exact Annotations.values_injective hall
  · intro h sid
    rw [AnnotationStore.list, AnnotationStore.list, h]

/-- A request that can fail without harm: it is turned away before it changes anything, or it
asks for what the store holds already and does not take the file away. -/
def FailsHarmlessly (lib : Libraries) (codec : AnnotationCodec) (state : AnnotationRouteState)
    (fault : Option (PersistStep × String)) (store : AnnotationStore) (caller : Caller)
    (request : ChangeRequest) : Prop :=
  requested lib state store caller request = none ∨
    requested lib state store caller request = some store.annotations ∧
      (FailsAtRename codec fault store.annotations → store.reopened codec = .ok .empty)

/-- A request that is answered with an error leaves the annotations, listed and reopened, as
they were exactly when it fails harmlessly. -/
theorem sameAnnotations_iff_failsHarmlessly (lib : Libraries) (codec : AnnotationCodec)
    (state : AnnotationRouteState) (tmp : Uuid) (fault : Option (PersistStep × String))
    (store : AnnotationStore) (caller : Caller) (request : ChangeRequest)
    {e : AnnotationApiError}
    (herror : (handle lib codec state tmp fault store caller request).1 = .error e) :
    SameAnnotations codec store (handle lib codec state tmp fault store caller request).2 ↔
      FailsHarmlessly lib codec state fault store caller request := by
  unfold FailsHarmlessly
  cases hset : requested lib state store caller request with
  | none =>
    rw [(handle_carriedOut fault tmp codec hset : _ = store)]
    exact iff_of_true ⟨fun _ => rfl, rfl⟩ (.inl rfl)
  | some annotations =>
    obtain ⟨hstore, hanswer⟩ := handle_carriedOut fault tmp codec hset
    obtain ⟨e', hpersist⟩ := hanswer.mp ⟨e, herror⟩
    rw [SameAnnotations, list_eq_iff, hstore, AnnotationStore.reopened_eq,
      AnnotationStore.reopened_eq]
    simp only [reduceCtorEq, false_or, Option.some.injEq]
    apply and_congr_right
    rintro rfl
    have houtcome := persisted codec tmp fault store.annotations store.dir
    generalize persistLocked codec tmp fault store.annotations store.dir = result at *
    cases houtcome with
    | kept hno hfile =>
      simp only [hfile, true_iff]
      exact fun h => absurd h hno
    | gone hrename hfile =>
      simp only [hfile, hrename, forall_const]
      exact eq_comm
    | saved => cases hpersist

/-! ## Crashes -/

/-- A request with what happens while it is carried out. -/
structure Event where
  caller : Caller
  request : ChangeRequest
  tmp : Uuid
  fault : Option (PersistStep × String)

def serve (lib : Libraries) (codec : AnnotationCodec) (state : AnnotationRouteState)
    (store : AnnotationStore) (ev : Event) : Option AnnotationStore :=
  some (handle lib codec state ev.tmp ev.fault store ev.caller ev.request).2

/-- The request is not answered with an error, unless it is turned away. -/
def writesWhatItChanges (lib : Libraries) (codec : AnnotationCodec)
    (state : AnnotationRouteState) (store : AnnotationStore) (ev : Event) : Prop :=
  (∃ e, (handle lib codec state ev.tmp ev.fault store ev.caller ev.request).1 = .error e) →
    requested lib state store ev.caller ev.request = none

/-- The program ends while there is no file, and there were annotations before the change and
are some after it. -/
def CrashLosesFile (lib : Libraries) (codec : AnnotationCodec) (state : AnnotationRouteState)
    (fault : Option (PersistStep × String)) (store : AnnotationStore) (caller : Caller)
    (request : ChangeRequest) : Prop :=
  store.reopened codec ≠ .ok .empty ∧
    ∃ annotations, requested lib state store caller request = some annotations ∧
      annotations ≠ .empty ∧ FailsAtRename codec fault annotations

section Routes

variable {lib : Libraries} {codec : AnnotationCodec} {state : AnnotationRouteState}

theorem loadAnnotations_persistLocked (hcodec : codec.Lawful) (path : String) {tmp : Uuid}
    (hok : ∀ e, (persistLocked codec tmp fault annotations dir).1 ≠ .error e) :
    loadAnnotations codec path
      ((persistLocked codec tmp fault annotations dir).2 annotationsFile) = .ok annotations := by
  have houtcome := persisted codec tmp fault annotations dir
  generalize persistLocked codec tmp fault annotations dir = result at *
  cases houtcome with
  | kept | gone => exact absurd rfl (hok _)
  | saved hno hbody hfile =>
    simp only [hfile]
    exact loadAnnotations_saved hcodec path hbody

theorem reopened_openStore {path : String} {opened : AnnotationStore}
    (hopen : AnnotationStore.openStore codec path dir = .ok opened) :
    opened.reopened codec = .ok opened.annotations := by
  rw [AnnotationStore.openStore] at hopen
  cases hload : loadAnnotations codec path (dir annotationsFile) with
  | error e =>
    rw [hload] at hopen
    cases hopen
  | ok annotations =>
    rw [hload] at hopen
    cases hopen
    rw [AnnotationStore.reopened_eq, hload]

end Routes

/-- Over every run of requests on a store: as long as no change fails to be written, opening the
store again yields what it holds; and after a crash at any step of a change it yields the set
before the change or the set after it exactly when the crash does not lose the file. -/
theorem reopened_before_or_after_iff (lib : Libraries) (codec : AnnotationCodec)
    (state : AnnotationRouteState) (hcodec : codec.Lawful) (path : String) (dir : Dir)
    {opened : AnnotationStore} (hopen : AnnotationStore.openStore codec path dir = .ok opened)
    (events : List Event) {store : AnnotationStore}
    (hrun : Transition.exec (serve lib codec state) opened events = some store) :
    (Transition.Guarded (serve lib codec state) (writesWhatItChanges lib codec state) opened
        events →
      store.reopened codec = .ok store.annotations) ∧
    ∀ tmp fault caller request,
      ((handle lib codec state tmp fault store caller request).2.reopened codec =
            store.reopened codec ∨
          (handle lib codec state tmp fault store caller request).2.reopened codec =
            .ok (handle lib codec state tmp none store caller request).2.annotations) ↔
        ¬ CrashLosesFile lib codec state fault store caller request := by
  refine ⟨fun hguard => ?_, fun tmp fault caller request => ?_⟩
  · -- A request that is not answered with an error leaves memory and file the same.
    have hkept : ∀ store ev store', store.reopened codec = .ok store.annotations →
        writesWhatItChanges lib codec state store ev →
        serve lib codec state store ev = some store' →
        store'.reopened codec = .ok store'.annotations := by
      rintro store ev _ hstore hwrites ⟨⟩
      cases hset : requested lib state store ev.caller ev.request with
      | none =>
        rw [(handle_carriedOut ev.fault ev.tmp codec hset : _ = store)]
        exact hstore
      | some annotations =>
        obtain ⟨hafter, hanswer⟩ := handle_carriedOut ev.fault ev.tmp codec hset
        rw [hafter, AnnotationStore.reopened_eq]
        apply loadAnnotations_persistLocked hcodec
        intro e herror
        have hnone := hwrites (hanswer.mpr ⟨e, herror⟩)
        rw [hset] at hnone
        cases hnone
    exact Transition.exec_invariant hkept (reopened_openStore hopen) hguard hrun
  · unfold CrashLosesFile
    cases hset : requested lib state store caller request with
    | none =>
      rw [(handle_carriedOut fault tmp codec hset : _ = store)]
      exact iff_of_true (.inl rfl) (by simp)
    | some annotations =>
      rw [(handle_carriedOut fault tmp codec hset).1, (handle_carriedOut none tmp codec hset).1,
        AnnotationStore.reopened_eq, AnnotationStore.reopened_eq]
      simp only [Option.some.injEq, exists_eq_left']
      have houtcome := persisted codec tmp fault annotations store.dir
      generalize persistLocked codec tmp fault annotations store.dir = result at houtcome
      cases houtcome with
      | kept hno hfile =>
        simp only [hfile]
        exact iff_of_true (.inl trivial) fun h => hno h.2.2
      | gone hrename hfile =>
        -- A missing file is read as an empty set.
        have hmissing : loadAnnotations codec store.path none = .ok .empty := rfl
        simp only [hfile, hmissing, hrename, and_true, not_and_or, not_not, Except.ok.injEq,
          eq_comm]
      | saved hno hbody hfile =>
        simp only [hfile, loadAnnotations_saved hcodec store.path hbody]
        exact iff_of_true (.inr trivial) fun h => hno h.2.2

/-! ## Edits that all succeed -/

/-- The calls that change a store. -/
inductive Edit
  | upsert (id : Uuid) (target : AnnotationTarget) (text : String) (updatedBy : Option String)
      (updatedAt : OffsetDateTime)
  | delete (id : Uuid)

/-- Make a call that succeeds. -/
def AnnotationStore.edit (codec : AnnotationCodec) (store : AnnotationStore) :
    Edit × Uuid × Option (PersistStep × String) → Option AnnotationStore
  | (.upsert id target text updatedBy updatedAt, tmp, fault) =>
    let result := store.upsert codec tmp fault id target text updatedBy updatedAt
    result.1.toOption.map fun _ => result.2
  | (.delete id, tmp, fault) =>
    let result := store.delete codec tmp fault id
    result.1.toOption.map fun _ => result.2

theorem reopened_edit {codec : AnnotationCodec} (hcodec : codec.Lawful)
    {store store' : AnnotationStore} {call : Edit × Uuid × Option (PersistStep × String)}
    (h : store.reopened codec = .ok store.annotations)
    (hedit : store.edit codec call = some store') :
    store'.reopened codec = .ok store'.annotations := by
  obtain ⟨call, tmp, fault⟩ := call
  have hsaved : ∀ {α : Type} {f : Unit → α} {a : α} {annotations : Annotations},
      ((persistLocked codec tmp fault annotations store.dir).1.map f).toOption = some a →
      loadAnnotations codec store.path ((persistLocked codec tmp fault annotations store.dir).2
        annotationsFile) = .ok annotations := by
    intro _ _ _ annotations hok
    apply loadAnnotations_persistLocked hcodec
    intro e he
    rw [he] at hok
    cases hok
  cases call with
  | upsert id target text updatedBy updatedAt =>
    rw [AnnotationStore.edit, AnnotationStore.upsert] at hedit
    split at hedit
    · cases hedit
    · split at hedit
      · cases hedit
      · obtain ⟨_, hok, rfl⟩ := Option.map_eq_some_iff.mp hedit
        exact (AnnotationStore.reopened_eq ..).trans (hsaved hok)
  | delete id =>
    rw [AnnotationStore.edit, AnnotationStore.delete] at hedit
    split at hedit
    · obtain ⟨_, hok, rfl⟩ := Option.map_eq_some_iff.mp hedit
      exact (AnnotationStore.reopened_eq ..).trans (hsaved hok)
    · cases hedit
      exact h

/-- Over every run of calls that succeed, opening the store again yields what it holds. -/
theorem reopened_edits {codec : AnnotationCodec} (hcodec : codec.Lawful) (path : String) (dir : Dir)
    {opened store : AnnotationStore} (hopen : AnnotationStore.openStore codec path dir = .ok opened)
    (calls : List (Edit × Uuid × Option (PersistStep × String)))
    (hrun : Transition.exec (AnnotationStore.edit codec) opened calls = some store) :
    store.reopened codec = .ok store.annotations :=
  Transition.exec_keeps (reopened_edit hcodec) (reopened_openStore hopen) hrun

/-! ### Two notes -/

namespace Notes

def first : Annotation :=
  { id := 1, target := { kind := .session, sid := some 7 }, text := "operator note"
    updatedAt := 0, updatedBy := none, deleted := false }

def second : Annotation := { first with id := 2, text := "second note" }

def line (id text : Text) : Text :=
  '\x7b' :: ("\"id\":\"00000000-0000-0000-0000-00000000000".toList ++ id ++
    "\",\"target\":\x7b\"kind\":\"session\",\"sid\":".toList ++
    "\"00000000-0000-0000-0000-000000000007\"\x7d,\"text\":\"".toList ++ text ++
    "\",\"updated_at\":\"1970-01-01T00:00:00Z\",\"deleted\":false".toList) ++ ['\x7d']

def firstLine : Text := line ['1'] "operator note".toList

def secondLine : Text := line ['2'] "second note".toList

/-- The JSON library on the two notes. -/
def codec : AnnotationCodec where
  toString a :=
    if a = first then .ok firstLine
    else if a = second then .ok secondLine
    else .error "not one of the notes"
  fromStr text :=
    if text = firstLine then .ok first
    else if text = secondLine then .ok second
    else .error "expected value at line 1 column 1"

theorem line_eq (id text : Text) : ∃ inner, line id text = '\x7b' :: inner ++ ['\x7d'] :=
  ⟨_, rfl⟩

theorem codec_lawful : codec.Lawful := by
  intro a text h
  simp only [codec] at h ⊢
  split at h
  · next ha =>
    cases h
    exact ⟨by rw [if_pos rfl, ha], by decide +kernel, line_eq _ _⟩
  · split at h
    · next ha =>
      cases h
      have hne : secondLine ≠ firstLine := by decide +kernel
      exact ⟨by rw [if_neg hne, if_pos rfl, ha], by decide +kernel, line_eq _ _⟩
    · cases h

/-- The UUID library on the ids of the notes. No token is ever checked. -/
def lib : Libraries where
  argon2 := { invalid := fun _ => none, verifyPassword := fun _ _ => false }
  parseUuid s :=
    if s = "00000000-0000-0000-0000-000000000001" then .ok 1
    else if s = "00000000-0000-0000-0000-000000000002" then .ok 2
    else .error "invalid length"

def state : AnnotationRouteState := { noAuth := true }

def caller : Caller := { peer := .v4 0x7F000001 }

def save (a : Annotation) : ChangeRequest :=
  .upsert (String.ofList a.id.hyphenated) { target := a.target, text := a.text } a.updatedAt

def fresh : AnnotationStore := ⟨annotationsFile, .empty, fun _ => none⟩

def stored : AnnotationStore := (handle lib codec state 100 none fresh caller (save first)).2

def noSpace : Option (PersistStep × String) :=
  some (.write 0, "No space left on device (os error 28)")

def noRename : Option (PersistStep × String) :=
  some (.rename, "Permission denied (os error 13)")

theorem values_stored : stored.annotations.values = [first] := by decide +kernel

/-- After the renaming fails there is no file. -/
theorem reopened_noRename :
    (handle lib codec state 101 noRename stored caller (save second)).2.reopened codec =
      .ok .empty := by
  have hgone : (handle lib codec state 101 noRename stored caller (save second)).2.dir
      annotationsFile = none := by decide +kernel
  rfl

end Notes

section Examples

open Notes

/-- A request for the note that is there fails for want of space and changes nothing. -/
theorem sameAnnotations_iff_failsHarmlessly_again :
    ∃ e, (handle lib codec state 101 noSpace stored caller (save first)).1 = .error e ∧
      (SameAnnotations codec stored (handle lib codec state 101 noSpace stored caller
          (save first)).2 ↔
        FailsHarmlessly lib codec state noSpace stored caller (save first)) := by
  have herror : (handle lib codec state 101 noSpace stored caller (save first)).1 =
      .error (storeError "No space left on device (os error 28)") := by decide +kernel
  exact ⟨_, herror, sameAnnotations_iff_failsHarmlessly lib codec state 101 noSpace stored caller
    (save first) herror⟩

/-- A second note is refused because the new file cannot be renamed. The note is kept in memory
all the same, and after the store is opened again both notes are gone. -/
theorem not_sameAnnotations_noRename :
    (∃ e, (handle lib codec state 101 noRename stored caller (save second)).1 = .error e) ∧
      stored.annotations.values = [first] ∧
      (handle lib codec state 101 noRename stored caller (save second)).2.annotations.values =
        [first, second] ∧
      (handle lib codec state 101 noRename stored caller (save second)).2.reopened codec =
        .ok .empty ∧
      ¬ SameAnnotations codec stored
        (handle lib codec state 101 noRename stored caller (save second)).2 := by
  have herror : (handle lib codec state 101 noRename stored caller (save second)).1 =
      .error (storeError "Permission denied (os error 13)") := by decide +kernel
  have hafter : (handle lib codec state 101 noRename stored caller
      (save second)).2.annotations.values = [first, second] := by decide +kernel
  refine ⟨⟨_, herror⟩, values_stored, hafter, reopened_noRename, fun hsame => ?_⟩
  have hlist := congrArg Annotations.values (list_eq_iff.mp hsame.1)
  rw [values_stored, hafter] at hlist
  cases hlist

def saveFirst : List Event := [⟨caller, save first, 100, none⟩]

/-- The crash statement after the first note was saved. -/
theorem reopened_before_or_after_iff_saveFirst :
    codec.Lawful ∧ AnnotationStore.openStore codec annotationsFile (fun _ => none) = .ok fresh ∧
      Transition.exec (serve lib codec state) fresh saveFirst = some stored ∧
      (Transition.Guarded (serve lib codec state) (writesWhatItChanges lib codec state) fresh
          saveFirst →
        stored.reopened codec = .ok stored.annotations) ∧
      ∀ tmp fault caller request,
        ((handle lib codec state tmp fault stored caller request).2.reopened codec =
              stored.reopened codec ∨
            (handle lib codec state tmp fault stored caller request).2.reopened codec =
              .ok (handle lib codec state tmp none stored caller request).2.annotations) ↔
          ¬ CrashLosesFile lib codec state fault stored caller request :=
  ⟨codec_lawful, rfl, rfl,
    reopened_before_or_after_iff lib codec state codec_lawful annotationsFile (fun _ => none) rfl
      saveFirst rfl⟩

/-- A crash between the removal of the file with the first note and the renaming of the file
with both: opening the store again yields neither one note nor two. -/
theorem crash_loses_both_notes :
    Transition.exec (serve lib codec state) fresh saveFirst = some stored ∧
      (stored.reopened codec).map Annotations.values = .ok [first] ∧
      (handle lib codec state 101 none stored caller (save second)).2.annotations.values =
        [first, second] ∧
      (handle lib codec state 101 noRename stored caller (save second)).2.reopened codec =
        .ok .empty ∧
      ¬ ((handle lib codec state 101 noRename stored caller (save second)).2.reopened codec =
            stored.reopened codec ∨
          (handle lib codec state 101 noRename stored caller (save second)).2.reopened codec =
            .ok (handle lib codec state 101 none stored caller (save second)).2.annotations) := by
  have hopen : AnnotationStore.openStore codec annotationsFile (fun _ => none) = .ok fresh := rfl
  have hsave : fresh.edit codec (.upsert 1 first.target first.text none 0, 100, none) =
      some stored := rfl
  have hbefore : (stored.reopened codec).map Annotations.values = .ok [first] := by
    rw [reopened_edit codec_lawful (reopened_openStore hopen) hsave, Except.map, values_stored]
  have hchanged : (handle lib codec state 101 none stored caller
      (save second)).2.annotations.values = [first, second] := by decide +kernel
  have hcrashed := reopened_noRename
  have hempty : Annotations.empty.values = [] := rfl
  refine ⟨rfl, hbefore, hchanged, hcrashed, ?_⟩
  rintro (heq | heq)
  · rw [← heq, hcrashed, Except.map, hempty] at hbefore
    cases hbefore
  · rw [hcrashed, Except.ok.injEq] at heq
    rw [← heq, hempty] at hchanged
    cases hchanged

def savedTwice : List (Edit × Uuid × Option (PersistStep × String)) :=
  [(.upsert 1 first.target first.text none 0, 100, none), (.delete 2, 101, none),
    (.upsert 2 second.target second.text none 0, 102, none), (.delete 1, 103, none)]

/-- Both notes are saved and the first one is deleted. -/
theorem reopened_edits_savedTwice :
    ∃ store, Transition.exec (AnnotationStore.edit codec) fresh savedTwice = some store ∧
      store.reopened codec = .ok store.annotations := by
  have hruns : (Transition.exec (AnnotationStore.edit codec) fresh savedTwice).isSome = true := by
    decide +kernel
  obtain ⟨store, hrun⟩ := Option.isSome_iff_exists.mp hruns
  exact ⟨store, hrun,
    reopened_edits codec_lawful annotationsFile (fun _ => none) rfl savedTwice hrun⟩

end Examples

end TraceMux.Server.AnnotationApi
