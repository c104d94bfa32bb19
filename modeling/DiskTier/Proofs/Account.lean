import DiskTier.RecordFile
import DiskTier.Proofs.Space

/-!
# The account of a record file

What can be asked of the file at one path, and an account of what was: the writes since the file was
empty, the newest first, the length that the file is known to have, and whether it is open. The
account says what each position holds, the byte of the newest write to it or zero, and so what a
read may answer. It knows nothing of the file system.
-/

namespace DiskTier.RecordFile

/-! ### Requests -/

/-- What can be asked of the file at a path. -/
inductive Request where
  /-- Opens the file at its path, whether it was open or not. -/
  | reopen
  | createEmpty
  | read (slot : Slot)
  | write (offset : UInt64) (bytes : Bytes)
  | append (bytes : Bytes)
  | overwrite (bytes : Bytes)
  | truncate
  | sync
  | close
  deriving DecidableEq, Repr

/-- What is answered. -/
inductive Reply where
  | done
  | bytes (bytes : Bytes)
  | slot (slot : Slot)
  deriving DecidableEq, Repr

/-- An action that looks at the file. -/
def looking {α : Type} (x : RecordFile → Action FileSystem FileError α) : Change α := do
  let f ← FileAction.value
  FileAction.onDisk id (x f)

/-- Opens the file at the path. If that fails, the file stays as it was. -/
def renew (x : Path → Action FileSystem FileError RecordFile) : Change Unit := do
  let f ← FileAction.value
  let fresh ← FileAction.onDisk id (x f.path)
  FileAction.change fun _ => fresh

def Request.perform : Request → Change Reply
  | .reopen => (fun _ => .done) <$> renew openAt
  | .createEmpty => (fun _ => .done) <$> renew RecordFile.createEmpty
  | .read slot => .bytes <$> looking fun f => f.read slot
  | .write offset bytes => (fun _ => .done) <$> RecordFile.write offset bytes
  | .append bytes => .slot <$> RecordFile.append bytes
  | .overwrite bytes => (fun _ => .done) <$> RecordFile.overwrite bytes
  | .truncate => (fun _ => .done) <$> RecordFile.truncate
  | .sync => (fun _ => .done) <$> looking RecordFile.sync
  | .close => (fun _ => .done) <$> RecordFile.close

/-- The files on disk and the one that is used, which nobody else touches. -/
abbrev World : Type := FileSystem × RecordFile

/-- The file at a path before it is first opened. -/
def unopened (path : Path) : RecordFile := { path, handle := none, length := 0 }

/-- What can be seen of a request: the answer to it, and the tracked length after it. -/
structure Event where
  request : Request
  answer : Except FileError Reply
  length : UInt64

/-- One request after the other. -/
inductive Run (p : World) : List Event → World → Prop where
  | nil : Run p [] p
  | snoc {events : List Event} {q q' : World} {answer : Except FileError Reply}
      (h : Run p events q) (request : Request) (hr : request.perform.result q = (answer, q')) :
      Run p (events ++ [⟨request, answer, q'.2.length⟩]) q'

/-- The world after some requests. -/
def after (p : World) (requests : List Request) : World :=
  requests.foldl (fun q request => (request.perform.result q).2) p

/-- What can be seen of some requests. -/
def history (p : World) : List Request → List Event
  | [] => []
  | request :: requests =>
    let r := request.perform.result p
    ⟨request, r.1, r.2.2.length⟩ :: history r.2 requests

theorem result_eq_after {p : World} {request : Request} {answer : Except FileError Reply}
    (h : (request.perform.result p).1 = answer) :
    request.perform.result p = (answer, after p [request]) := Prod.ext h rfl

theorem Run.history {p q : World} {events : List Event} (h : Run p events q)
    (requests : List Request) : Run p (events ++ history q requests) (after q requests) := by
  induction requests generalizing q events with
  | nil =>
    rw [RecordFile.history, List.append_nil]
    exact h
  | cons request requests ih =>
    have hnext := ih (h.snoc request rfl)
    rw [List.append_assoc] at hnext
    exact hnext

/-! ### Writes -/

/-- The writes to a file since it was empty, the newest first: where each begins and its bytes. -/
abbrev Writes : Type := List (Nat × Bytes)

namespace Writes

variable {ws : Writes} {offset i : Nat} {bytes : Bytes} {slot : Slot}

/-- The byte of the newest write to a position, or zero. -/
def byteAt : Writes → Nat → UInt8
  | [], _ => 0
  | (offset, bytes) :: older, i =>
    if offset ≤ i ∧ i < offset + bytes.length then bytes.getD (i - offset) 0 else byteAt older i

/-- The position behind everything that was written. -/
def extent : Writes → Nat
  | [] => 0
  | (offset, bytes) :: older =>
    if bytes = [] then extent older else max (extent older) (offset + bytes.length)

/-- What the file holds. -/
def content (ws : Writes) : Bytes := (List.range ws.extent).map ws.byteAt

/-- What a slot holds. -/
def range (ws : Writes) (slot : Slot) : Bytes :=
  (List.range' slot.start slot.length.toNat).map ws.byteAt

theorem byteAt_of_extent_le (h : ws.extent ≤ i) : ws.byteAt i = 0 := by
  induction ws with
  | nil => rfl
  | cons w older ih =>
    obtain ⟨offset, bytes⟩ := w
    rw [extent] at h
    rw [byteAt]
    split at h
    · next hnil =>
      subst hnil
      rw [if_neg (by simp), ih h]
    · rw [if_neg (by omega), ih (by omega)]

@[simp] theorem length_content (ws : Writes) : ws.content.length = ws.extent := by
  simp [content]

theorem getD_content (ws : Writes) (i : Nat) : ws.content.getD i 0 = ws.byteAt i := by
  rw [List.getD_eq_getElem?_getD, content, List.getElem?_map]
  by_cases h : i < ws.extent
  · rw [List.getElem?_range h]
    rfl
  · rw [List.getElem?_eq_none (by simpa using h), byteAt_of_extent_le (Nat.not_lt.1 h)]
    rfl

/-- Bytes are the content if they are as many, and each is the one last written. -/
theorem eq_content {b : Bytes} (hlen : b.length = ws.extent)
    (h : ∀ i, b.getD i 0 = ws.byteAt i) : b = ws.content := by
  refine List.ext_getElem (by simpa using hlen) fun i hi hi' => ?_
  have heq := (h i).trans (getD_content ws i).symm
  rwa [List.getD_eq_getElem _ _ hi, List.getD_eq_getElem _ _ hi'] at heq

theorem content_single (b : Bytes) : content [(0, b)] = b := by
  refine (eq_content ?_ fun i => ?_).symm
  · rw [extent, extent]
    split
    · next hnil => rw [hnil]; rfl
    · omega
  · rw [byteAt, byteAt]
    split
    · rfl
    · rw [List.getD_eq_default _ _ (by omega)]

/-- A write of no bytes leaves the file as it is. -/
theorem content_cons_nil (offset : Nat) (ws : Writes) :
    content ((offset, []) :: ws) = ws.content := by
  refine (eq_content (by simp [extent]) fun i => ?_).symm
  rw [byteAt, if_neg (by simp), getD_content]

theorem content_cons (hne : bytes ≠ []) (offset : Nat) (ws : Writes) :
    content ((offset, bytes) :: ws) =
      ws.content.take offset ++ List.replicate (offset - ws.extent) 0 ++ bytes ++
        ws.content.drop (offset + bytes.length) := by
  have hfront : (ws.content.take offset ++ List.replicate (offset - ws.extent) (0 : UInt8)).length =
      offset := by
    simp only [List.length_append, List.length_take, List.length_replicate, length_content]
    omega
  refine (eq_content ?_ fun i => ?_).symm
  · rw [List.length_append, List.length_append, hfront, List.length_drop, length_content, extent,
      if_neg hne]
    omega
  · rw [List.append_assoc, List.getD_eq_getElem?_getD, byteAt]
    rcases Nat.lt_or_ge i offset with hi | hi
    · -- in front of the write lies what lay there, and zeros behind the old end
      rw [if_neg (by omega), List.getElem?_append_left (by omega), ← getD_content,
        List.getD_eq_getElem?_getD]
      rcases Nat.lt_or_ge i ws.extent with hext | hext
      · rw [List.getElem?_append_left (by simp; omega), List.getElem?_take_of_lt hi]
      · rw [List.getElem?_append_right (by simp; omega), List.getElem?_replicate,
          List.getElem?_eq_none (by simpa using hext)]
        split <;> rfl
    · rw [List.getElem?_append_right (by omega), hfront]
      rcases Nat.lt_or_ge i (offset + bytes.length) with hi' | hi'
      · rw [if_pos ⟨hi, hi'⟩, List.getElem?_append_left (by omega), List.getD_eq_getElem?_getD]
      · rw [if_neg (by omega), List.getElem?_append_right (by omega), List.getElem?_drop,
          ← getD_content, List.getD_eq_getElem?_getD]
        congr 2
        omega

theorem length_range (ws : Writes) (slot : Slot) :
    (ws.range slot).length = slot.length.toNat := by simp [range]

theorem range_of_empty (h : slot.length.toNat = 0) : ws.range slot = [] := by simp [range, h]

/-- What is read of a slot in the file. -/
theorem slice_content (h : slot.stop ≤ ws.extent) : slot.slice ws.content = ws.range slot := by
  rw [Slot.stop_eq] at h
  refine List.ext_getElem? fun i => ?_
  rw [Slot.getElem?_slice, range, List.getElem?_map, content, List.getElem?_map]
  split
  · next hi =>
    rw [List.getElem?_range (by omega), List.getElem?_range' (by omega), Nat.one_mul]
  · next hi =>
    rw [List.getElem?_eq_none (by simpa using hi)]
    rfl

/-- A slot holds what was just written into it. -/
theorem range_cons_self (hstart : slot.start = offset) (hlen : slot.length.toNat = bytes.length) :
    range ((offset, bytes) :: ws) slot = bytes := by
  refine List.ext_getElem (by rw [length_range, hlen]) fun i hi hi' => ?_
  simp only [range, List.getElem_map, List.getElem_range', Nat.one_mul]
  rw [byteAt, hstart, if_pos (by omega), Nat.add_sub_cancel_left, List.getD_eq_getElem _ _ hi']

/-- A slot holds what it held if the write is elsewhere. -/
theorem range_cons_of_apart
    (h : min slot.stop (offset + bytes.length) ≤ max slot.start offset) :
    range ((offset, bytes) :: ws) slot = ws.range slot := by
  rw [Slot.stop_eq] at h
  refine List.map_congr_left fun i hi => ?_
  rw [List.mem_range'_1] at hi
  rw [byteAt, if_neg]
  omega

theorem extent_le_cons (offset : Nat) (bytes : Bytes) (ws : Writes) :
    ws.extent ≤ extent ((offset, bytes) :: ws) := by
  rw [extent]
  split
  · exact Nat.le_refl _
  · exact Nat.le_max_left _ _

theorem extent_cons (hne : bytes ≠ []) :
    extent ((offset, bytes) :: ws) = max ws.extent (offset + bytes.length) := by
  rw [extent, if_neg hne]

theorem extent_cons_nil : extent ((offset, []) :: ws) = ws.extent := if_pos rfl

end Writes

/-! ### Accounts -/

/-- What is known of the file from what was asked and answered. -/
structure Account where
  writes : Writes
  /-- The tracked length. -/
  length : Nat
  isOpen : Bool

namespace Account

/-- The account before the file is first opened, when it holds `bytes`. -/
def first (bytes : Bytes) : Account := { writes := [(0, bytes)], length := 0, isOpen := false }

/-- The account after bytes were written. -/
def put (a : Account) (offset : Nat) (bytes : Bytes) : Account :=
  { a with writes := (offset, bytes) :: a.writes, length := max a.length (offset + bytes.length) }

/-- The account after the file was emptied. -/
def cleared (a : Account) : Account := { a with writes := [], length := 0 }

/-- The account that a request writes to, and where it writes which bytes. -/
def target (a : Account) : Request → Option (Account × Nat × Bytes)
  | .write offset bytes => some (a, offset.toNat, bytes)
  | .append bytes => some (a, a.length, bytes)
  | .overwrite bytes => some (a.cleared, 0, bytes)
  | _ => none

/-- What may be answered to a request, and what becomes of the account. A write is broken off only
if `breaks`. -/
inductive Turn (breaks : Prop) (a : Account) :
    Request → Except FileError Reply → Account → Prop where
  | reopened :
      Turn breaks a .reopen (.ok .done) { a with length := a.writes.extent, isOpen := true }
  | created : Turn breaks a .createEmpty (.ok .done) { a.cleared with isOpen := true }
  | read (ho : a.isOpen) (slot : Slot) (hin : slot.stop ≤ a.length)
      (hreal : slot.length.toNat ≠ 0 → slot.stop ≤ a.writes.extent) :
      Turn breaks a (.read slot) (.ok (.bytes (a.writes.range slot))) a
  | written (ho : a.isOpen) (offset : UInt64) (bytes : Bytes) :
      Turn breaks a (.write offset bytes) (.ok .done) (a.put offset.toNat bytes)
  | appended (ho : a.isOpen) (slot : Slot) (bytes : Bytes) (hstart : slot.start = a.length)
      (hlen : slot.length.toNat = bytes.length) :
      Turn breaks a (.append bytes) (.ok (.slot slot)) (a.put a.length bytes)
  | overwritten (ho : a.isOpen) (bytes : Bytes) :
      Turn breaks a (.overwrite bytes) (.ok .done) (a.cleared.put 0 bytes)
  | truncated (ho : a.isOpen) : Turn breaks a .truncate (.ok .done) a.cleared
  | synced (ho : a.isOpen) : Turn breaks a .sync (.ok .done) a
  /-- The file is given up also if it cannot be forced to disk. -/
  | closed (answer : Except FileError Reply) :
      Turn breaks a .close answer { a with isOpen := false }
  | failed (request : Request) (hne : request ≠ .close) (e : FileError) :
      Turn breaks a request (.error e) a
  /-- The file was emptied, and then nothing could be written. -/
  | emptied (ho : a.isOpen) (bytes : Bytes) (e : FileError) :
      Turn breaks a (.overwrite bytes) (.error e) a.cleared
  /-- The first bytes were written all the same. -/
  | brokenOff (hb : breaks) (ho : a.isOpen) {request : Request} {b : Account} {offset : Nat}
      {bytes : Bytes} (ht : a.target request = some (b, offset, bytes)) (k : Nat) (e : FileError) :
      Turn breaks a request (.error e) { b with writes := (offset, bytes.take k) :: b.writes }

/-- An account is kept of what is asked and answered. -/
inductive Kept (breaks : Prop) (a : Account) : List Event → Account → Prop where
  | nil : Kept breaks a [] a
  | snoc {events : List Event} {b c : Account} {e : Event} (h : Kept breaks a events b)
      (ht : Turn breaks b e.request e.answer c) (hlen : e.length.toNat = c.length) :
      Kept breaks a (events ++ [e]) c

end Account

/-! ### What lasts -/

/-- Whether the event opens the file. -/
def Event.reopens (e : Event) : Prop := e.request = .reopen ∧ e.answer = .ok .done

/-- Whether a write at `offset` has a byte in common with a slot. -/
def overlaps (slot : Slot) (offset size : Nat) : Prop :=
  max slot.start offset < min slot.stop (offset + size)

/-- Whether the event may change what lies in a slot. -/
def Event.disturbs (breaks : Prop) (slot : Slot) (e : Event) : Prop :=
  match e.request with
  | .createEmpty | .truncate => e.answer = .ok .done
  | .overwrite _ => True
  | .write offset bytes =>
    overlaps slot offset.toNat bytes.length ∧ (e.answer = .ok .done ∨ breaks)
  | _ => False

namespace Account

variable {breaks lasting : Prop} {a b : Account} {e : Event} {slot : Slot} {bytes : Bytes}
  {offset : Nat} {events : List Event}

/-- A slot has been given bytes that can be read. If there are none, the slot lies in the file only
if `lasting`. -/
structure Shows (lasting : Prop) (a : Account) (slot : Slot) (bytes : Bytes) : Prop where
  within : slot.stop ≤ a.length
  holds : a.writes.range slot = bytes
  reached : bytes ≠ [] ∨ lasting → slot.stop ≤ a.writes.extent

theorem shows_put (hstart : slot.start = a.length) (hlen : slot.length.toNat = bytes.length) :
    (a.put a.length bytes).Shows (a.length ≤ a.writes.extent) slot bytes := by
  have hstop : slot.stop = a.length + bytes.length := by rw [Slot.stop_eq, hstart, hlen]
  refine ⟨hstop ▸ Nat.le_max_right _ _, Writes.range_cons_self hstart hlen, fun h => ?_⟩
  by_cases hne : bytes = []
  · subst hne
    have hle : a.length ≤ a.writes.extent := h.resolve_left fun h => h rfl
    exact hstop ▸ Nat.le_trans hle (Writes.extent_le_cons _ _ _)
  · show slot.stop ≤ Writes.extent ((a.length, bytes) :: a.writes)
    rw [Writes.extent_cons hne, hstop]
    exact Nat.le_max_right _ _

/-- A write elsewhere leaves what a slot shows. -/
theorem Shows.write (h : a.Shows lasting slot bytes) {added : Bytes}
    (hapart : ¬ overlaps slot offset added.length) {length : Nat} (hlen : a.length ≤ length) :
    { a with writes := (offset, added) :: a.writes, length }.Shows lasting slot bytes := by
  have hrange : Writes.range ((offset, added) :: a.writes) slot = a.writes.range slot :=
    Writes.range_cons_of_apart (Nat.not_lt.1 hapart)
  exact ⟨Nat.le_trans h.within hlen, hrange.trans h.holds,
    fun hr => Nat.le_trans (h.reached hr) (Writes.extent_le_cons _ _ _)⟩

/-- Behind everything that a slot shows nothing overlaps with it. -/
theorem Shows.not_overlaps (h : a.Shows lasting slot bytes) (size : Nat) :
    ¬ overlaps slot a.length size := by
  have := h.within
  rw [overlaps]
  omega

/-- What a slot shows outlasts whatever does not disturb it. -/
theorem Turn.shows (ht : Turn breaks a e.request e.answer b) (h : a.Shows lasting slot bytes)
    (hd : ¬ e.disturbs breaks slot) (hr : e.reopens → bytes ≠ [] ∨ lasting) :
    b.Shows lasting slot bytes := by
  obtain ⟨request, answer, length⟩ := e
  dsimp only at ht
  cases ht with
  | reopened => exact ⟨h.reached (hr ⟨rfl, rfl⟩), h.holds, h.reached⟩
  | created => exact absurd rfl hd
  | read => exact h
  | written ho offset added =>
    exact h.write (fun ho => hd ⟨ho, .inl rfl⟩) (Nat.le_max_left _ _)
  | appended ho s added => exact h.write (h.not_overlaps _) (Nat.le_max_left _ _)
  | overwritten => exact absurd trivial hd
  | truncated => exact absurd rfl hd
  | synced => exact h
  | closed => exact ⟨h.within, h.holds, h.reached⟩
  | failed => exact h
  | emptied => exact absurd trivial hd
  | @brokenOff hb ho request base start added ht k err =>
    cases request with
    | write offset bytes =>
      cases ht
      refine h.write (fun ho => hd ⟨?_, .inr hb⟩) (Nat.le_refl _)
      have := List.length_take_le' k added
      rw [overlaps] at ho ⊢
      omega
    | append bytes =>
      cases ht
      exact h.write (h.not_overlaps _) (Nat.le_refl _)
    | overwrite bytes => exact absurd trivial hd
    | _ => cases ht

theorem Kept.shows (hk : Kept breaks a events b) (h : a.Shows lasting slot bytes)
    (hd : ∀ e ∈ events, ¬ e.disturbs breaks slot)
    (hr : ∀ e ∈ events, e.reopens → bytes ≠ [] ∨ lasting) : b.Shows lasting slot bytes := by
  induction hk with
  | nil => exact h
  | @snoc events b c e hk ht hlen ih =>
    have hmem : e ∈ events ++ [e] := List.mem_append_right _ (List.mem_singleton_self e)
    exact ht.shows (ih (fun e he => hd e (List.mem_append_left _ he))
      fun e he => hr e (List.mem_append_left _ he)) (hd e hmem) (hr e hmem)

end Account

end DiskTier.RecordFile
