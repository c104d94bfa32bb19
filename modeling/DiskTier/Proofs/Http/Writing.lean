import DiskTier.Proofs.Http.Commands
import Mathlib

/-!
# Commands are read back as they were written

A request for each command: names in a path are written with every byte as a percent sign and two
digits, what is to be stored as a record. So names may have any characters, those with a meaning in
a path, a key or a record included (`Command.command?_request`).
-/

namespace DiskTier

/-! ### Names in a path -/

namespace Http.Percent

/-- Writes every byte as a percent sign and two digits. -/
def encode (s : Bytes) : Bytes :=
  s.flatMap fun b =>
    [Ascii.percent, Ascii.hexDigit (b.toNat / 16), Ascii.hexDigit (b.toNat % 16)]

theorem decodeBytes_encode (s : Bytes) : decodeBytes (encode s) = s := by
  induction s with
  | nil => rfl
  | cons b s ih =>
    have hb := b.toNat_lt
    have hhigh := Ascii.hexValue?_hexDigit (b.toNat / 16) (by omega)
    have hlow := Ascii.hexValue?_hexDigit (b.toNat % 16) (by omega)
    have hbyte : UInt8.ofNat (16 * (b.toNat / 16) + b.toNat % 16) = b := by
      rw [Nat.div_add_mod, UInt8.ofNat_toNat]
    show decodeBytes (Ascii.percent :: Ascii.hexDigit (b.toNat / 16) ::
      Ascii.hexDigit (b.toNat % 16) :: encode s) = b :: s
    rw [decodeBytes, if_pos rfl, hhigh, hlow, ih]
    exact congrArg (· :: s) hbyte

/-- A text is read back as it was written. -/
theorem decode?_encode (s : String) : decode? (encode (Utf8.encode s)) = some s := by
  rw [decode?, decodeBytes_encode, Utf8.decode?_encode]

/-- The bytes that may stand in a part of a path. -/
def IsPartByte (b : UInt8) : Prop :=
  b ≠ Ascii.slash ∧ b ≠ Ascii.questionMark ∧ b ≠ Ascii.numberSign

instance (b : UInt8) : Decidable (IsPartByte b) := inferInstanceAs (Decidable (_ ∧ _))

theorem isPartByte_hexDigit : ∀ n < 16, IsPartByte (Ascii.hexDigit n) := by decide

theorem isPartByte_encode (s : Bytes) : ∀ b ∈ encode s, IsPartByte b := by
  intro b hb
  obtain ⟨c, -, hb⟩ := List.mem_flatMap.1 hb
  have hc := c.toNat_lt
  simp only [List.mem_cons, List.not_mem_nil, or_false] at hb
  rcases hb with rfl | rfl | rfl
  · decide
  · exact isPartByte_hexDigit _ (by omega)
  · exact isPartByte_hexDigit _ (by omega)

theorem isEmpty_encode {s : String} (h : s ≠ "") : (encode (Utf8.encode s)).isEmpty = false := by
  cases hs : Utf8.encode s with
  | nil =>
    have hempty : Utf8.decode? [] = some "" := Utf8.decode?_encode ""
    rw [← hs, Utf8.decode?_encode] at hempty
    exact absurd (Option.some.inj hempty) h
  | cons b bs => rfl

end Http.Percent

/-! ### Paths -/

namespace Http

open Percent (IsPartByte)

/-- The request target with these parts between its slashes. -/
def uriOf (parts : List Bytes) : Bytes := parts.flatMap (Ascii.slash :: ·)

theorem segments_append_uriOf {s : Bytes} (hs : ∀ b ∈ s, IsPartByte b) {parts : List Bytes}
    (h : segments (uriOf parts) = [] :: parts) : segments (s ++ uriOf parts) = s :: parts := by
  induction s with
  | nil => exact h
  | cons b s ih =>
    have hb := (hs b List.mem_cons_self).1
    rw [List.cons_append, segments, if_neg hb, ih fun c hc => hs c (List.mem_cons_of_mem b hc)]

theorem segments_uriOf {parts : List Bytes} (h : ∀ s ∈ parts, ∀ b ∈ s, IsPartByte b) :
    segments (uriOf parts) = [] :: parts := by
  induction parts with
  | nil => rfl
  | cons s parts ih =>
    obtain ⟨hs, hparts⟩ := List.forall_mem_cons.1 h
    show segments (Ascii.slash :: (s ++ uriOf parts)) = _
    rw [segments, if_pos rfl, segments_append_uriOf hs (ih hparts)]

/-- A path that begins with a slash has no scheme before it. -/
theorem pathOf_uriOf {parts : List Bytes} (h : ∀ s ∈ parts, ∀ b ∈ s, IsPartByte b) :
    pathOf (uriOf parts) = uriOf parts := by
  have hscheme : afterScheme? (uriOf parts) = none := by
    cases parts <;> rfl
  rw [pathOf, hscheme]
  refine List.takeWhile_eq_self_iff.2 fun b hb => ?_
  obtain ⟨s, hs, hb⟩ := List.mem_flatMap.1 hb
  rcases List.mem_cons.1 hb with rfl | hb
  · decide
  · have hpart := h s hs b hb
    simp [hpart.2.1, hpart.2.2]

theorem ofUri_uriOf {parts : List Bytes} (h : ∀ s ∈ parts, ∀ b ∈ s, IsPartByte b) :
    Target.ofUri (uriOf parts) = Target.ofSegments parts := by
  rw [Target.ofUri, pathOf_uriOf h, segments_uriOf h]

end Http

/-! ### Bodies -/

namespace Http.SetRequest

open Json Json.Reader Json.Value

/-- The record that says what is to be stored. -/
def toJson (r : SetRequest) : Value :=
  .record [("key", .text r.key), ("value", .text r.value), ("group", .optional .text r.group),
    ("max_life", .optional (fun n => .natural n.toNat) r.maxLife)]

/-- What is to be stored is read back as it was written. -/
theorem reader_takes (r : SetRequest) : reader.Takes r.toJson.render r := by
  have hgroup : Reader.text.optional.Reads (Value.optional .text r.group).render r.group :=
    optional_reads (fun s => ⟨text_reads s, by
      rw [render]
      exact ⟨_, _, rfl, by decide⟩⟩) r.group
  rw [toJson, render_record]
  exact record_takes
    (.required rfl (text_reads r.key) rfl
      (.required rfl (text_reads r.value) rfl
        (.defaulted rfl hgroup rfl
          (.defaulted rfl (optional_word64_reads r.maxLife) rfl (.nil _))))) rfl rfl

theorem front_toJson (r : SetRequest) : reader.front r.toJson.render = .ok r := by
  have h := r.reader_takes []
  rw [List.append_nil] at h
  rw [Reader.front, h]
  rfl

end Http.SetRequest

/-! ### Requests -/

namespace Http.Command

/-- The parts of the path that a command is sent to. -/
def parts : Command → List Bytes
  | .set _ => [Utf8.encode "set"]
  | .get n => [Utf8.encode "get", Percent.encode (Utf8.encode n)]
  | .getAttribute g n => [Utf8.encode "group", Percent.encode (Utf8.encode g), Utf8.encode "get",
      Percent.encode (Utf8.encode n)]
  | .delete n => [Utf8.encode "del", Percent.encode (Utf8.encode n)]
  | .groupKeys g => [Utf8.encode "group", Percent.encode (Utf8.encode g), Utf8.encode "keys"]
  | .deleteGroup g => [Utf8.encode "group", Percent.encode (Utf8.encode g)]
  | .deleteAll => [Utf8.encode "all"]

def method : Command → String
  | .set _ => "PUT"
  | .get _ | .getAttribute _ _ | .groupKeys _ => "GET"
  | .delete _ | .deleteGroup _ | .deleteAll => "DELETE"

/-- The body of the request, if the command needs one. -/
def body : Command → Bytes
  | .set r => r.toJson.render
  | _ => []

/-- A request that says the command. -/
def request (cmd : Command) : Request :=
  { method := cmd.method, uri := uriOf cmd.parts,
    contentType := some (Utf8.encode "application/json"), body := cmd.body }

/-- A path does not end in an empty name, and a body is not too long. -/
def IsSayable : Command → Prop
  | .set r => r.toJson.render.length ≤ maxBodySize
  | .get n | .getAttribute _ n | .delete n | .deleteGroup n => n ≠ ""
  | .groupKeys _ | .deleteAll => True

theorem isPartByte_parts (cmd : Command) : ∀ s ∈ cmd.parts, ∀ b ∈ s, Percent.IsPartByte b := by
  have hword : ∀ s ∈ ["set", "get", "group", "del", "keys", "all"],
      ∀ b ∈ Utf8.encode s, Percent.IsPartByte b := by
    decide +kernel
  simp only [List.forall_mem_cons] at hword
  obtain ⟨hset, hget, hgroup, hdel, hkeys, hall, -⟩ := hword
  have hname := fun n => Percent.isPartByte_encode (Utf8.encode n)
  have hnil : ∀ s ∈ ([] : List Bytes), ∀ b ∈ s, Percent.IsPartByte b := nofun
  cases cmd with
  | set r => exact List.forall_mem_cons.2 ⟨hset, hnil⟩
  | get n => exact List.forall_mem_cons.2 ⟨hget, List.forall_mem_cons.2 ⟨hname n, hnil⟩⟩
  | getAttribute g n =>
    refine List.forall_mem_cons.2 ⟨hgroup, List.forall_mem_cons.2 ⟨hname g, ?_⟩⟩
    exact List.forall_mem_cons.2 ⟨hget, List.forall_mem_cons.2 ⟨hname n, hnil⟩⟩
  | delete n => exact List.forall_mem_cons.2 ⟨hdel, List.forall_mem_cons.2 ⟨hname n, hnil⟩⟩
  | groupKeys g =>
    refine List.forall_mem_cons.2 ⟨hgroup, List.forall_mem_cons.2 ⟨hname g, ?_⟩⟩
    exact List.forall_mem_cons.2 ⟨hkeys, hnil⟩
  | deleteGroup g =>
    exact List.forall_mem_cons.2 ⟨hgroup, List.forall_mem_cons.2 ⟨hname g, hnil⟩⟩
  | deleteAll => exact List.forall_mem_cons.2 ⟨hall, hnil⟩

/-- The target of the path that a command is sent to. -/
def target : Command → Target
  | .set _ => .set
  | .get n => .get (Percent.encode (Utf8.encode n))
  | .getAttribute g n =>
    .groupAttribute (Percent.encode (Utf8.encode g)) (Percent.encode (Utf8.encode n))
  | .delete n => .delete (Percent.encode (Utf8.encode n))
  | .groupKeys g => .groupKeys (Percent.encode (Utf8.encode g))
  | .deleteGroup g => .group (Percent.encode (Utf8.encode g))
  | .deleteAll => .all

theorem ofSegments_parts {cmd : Command} (h : cmd.IsSayable) :
    Target.ofSegments cmd.parts = some cmd.target := by
  have hdel : Utf8.encode "del" ≠ Utf8.encode "get" := by decide
  have hgroup : Utf8.encode "group" ≠ Utf8.encode "get" ∧
      Utf8.encode "group" ≠ Utf8.encode "del" := by decide
  cases cmd with
  | set | groupKeys | deleteAll => rfl
  | get n => simp [parts, Target.ofSegments, Percent.isEmpty_encode h, target]
  | getAttribute g n => simp [parts, Target.ofSegments, Percent.isEmpty_encode h, target]
  | delete n => simp [parts, Target.ofSegments, Percent.isEmpty_encode h, target, hdel]
  | deleteGroup g => simp [parts, Target.ofSegments, Percent.isEmpty_encode h, target, hgroup]

/-- A command is read back as it was written, whatever characters its names have. -/
theorem command?_request {cmd : Command} (h : cmd.IsSayable) : cmd.request.command? = some cmd := by
  have hmethod : cmd.target.method = cmd.request.method := by
    cases cmd <;> rfl
  have htarget : Target.ofUri cmd.request.uri = some cmd.target :=
    (ofUri_uriOf cmd.isPartByte_parts).trans (ofSegments_parts h)
  rw [Request.command?, htarget]
  simp only [Option.bind_eq_bind, Option.bind_some, if_pos hmethod]
  cases cmd with
  | set r =>
    have htype : MediaType.announcesJson (Utf8.encode "application/json") := by decide +kernel
    exact Option.map_eq_some_iff.2
      ⟨r, Request.setRequest?_eq_some_iff.2 ⟨⟨htype, h⟩, r.front_toJson⟩, rfl⟩
  | getAttribute g n => simp [target, Target.command?, Percent.decode?_encode]
  | deleteAll => rfl
  | _ => simp [target, Target.command?, Percent.decode?_encode]

end Http.Command

end DiskTier
