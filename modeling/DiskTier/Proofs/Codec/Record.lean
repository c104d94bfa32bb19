import DiskTier.Index.Snapshot
import DiskTier.Proofs.Codec.Container

/-!
# Records and snapshots are read back as they were written

`Element.decode_encode` and `Index.Snapshot.decode_encode` are the two round trips. A record shows
its own end, so the record of an element is also told from one with other bytes behind it:
`Element.decode_encode_append` says so for the rest of an older, longer record, which ends in the
brace that every record ends in.
-/

namespace DiskTier

open Json Json.Reader

namespace Json.Reader

variable {α σ : Type} {fields : List (Field σ)} {name : String} {bytes : Bytes}
  {members : List (String × Bytes)} {acc last : σ} {x : Reader α}

theorem Gathers.required {get : σ → Option α} {put : α → σ → σ} {a : α}
    (found : fields.find? (·.name == name) = some (.required name get put x))
    (read : x.Reads bytes a) (fresh : get acc = none)
    (others : Gathers fields members (put a acc) last) :
    Gathers fields ((name, bytes) :: members) acc last := by
  refine .cons found ?_ (read.map _) others
  simp [Field.required, fresh]

theorem Gathers.nullable {get : σ → Option (Option α)} {put : Option α → σ → σ} {a : Option α}
    (found : fields.find? (·.name == name) = some (.nullable name get put x))
    (read : (optional x).Reads bytes a) (fresh : get acc = none)
    (others : Gathers fields members (put a acc) last) :
    Gathers fields ((name, bytes) :: members) acc last := by
  refine .cons found ?_ (read.map _) others
  simp [Field.nullable, fresh]

theorem Gathers.defaulted {get : σ → Option (Option α)} {put : Option α → σ → σ} {a : Option α}
    (found : fields.find? (·.name == name) = some (.defaulted name get put x))
    (read : (optional x).Reads bytes a) (fresh : get acc = none)
    (others : Gathers fields members (put a acc) last) :
    Gathers fields ((name, bytes) :: members) acc last := by
  refine .cons found ?_ (read.map _) others
  simp [Field.defaulted, Field.nullable, fresh]

/-- A value that may be missing is read back as it was written. -/
theorem optional_reads {write : α → Value}
    (h : ∀ a, x.Reads (write a).render a ∧ BeginsValue (write a).render) (o : Option α) :
    (optional x).Reads (Value.optional write o).render o := by
  cases o with
  | none =>
    rw [Value.optional, Value.render]
    exact (optional_takes_none x).reads
  | some a => exact optional_reads_some (h a).1 (h a).2

end Json.Reader

namespace Json.Value

theorem render_record (members : List (String × Value)) :
    (Value.record members).render =
      Ascii.openRecord ::
        commaSeparated ((members.map fun m => (m.1, m.2.render)).map memberBytes) ++
        [Ascii.closeRecord] := by
  rw [render, List.map_map]
  rfl

theorem render_list (items : List Value) :
    (Value.list items).render =
      Ascii.openList :: commaSeparated (items.map render) ++ [Ascii.closeList] := by
  rw [render]

theorem beginsValue_record (members : List (String × Value)) :
    BeginsValue (Value.record members).render := by
  rw [render_record]
  exact ⟨_, _, rfl, by decide⟩

theorem text_reads (s : String) : Reader.text.Reads (Value.text s).render s := by
  rw [render]
  exact (text_takes s).reads

theorem natural_reads {x : Reader α} {n : Nat} {a : α} (h : x.Reads (Decimal.ofInt n) a) :
    x.Reads (natural n).render a := by
  rw [natural, render]
  exact h

theorem optional_word64_reads (n : Option UInt64) : Reader.word64.optional.Reads
    (Value.optional (fun n : UInt64 => natural n.toNat) n).render n := by
  refine optional_reads (fun n => ⟨natural_reads (word64_reads n), ?_⟩) n
  rw [natural, render]
  exact beginsValue_ofInt _

end Json.Value

open Json.Value

/-! ### Keys and attributes -/

theorem GroupId.reader_takes (g : GroupId) : GroupId.reader.Takes g.toJson.render g := by
  rw [GroupId.toJson, render_record]
  exact record_takes
    (.required rfl (text_reads g.cacheName) rfl
      (.required rfl (text_reads g.groupName) rfl (.nil _))) rfl rfl

theorem Key.attributeReader_takes (g : GroupId) (n : String) :
    Key.attributeReader.Takes
      (Value.record [("group_id", g.toJson), ("attr_name", .text n)]).render (.attribute g n) := by
  rw [render_record]
  exact record_takes
    (.required rfl g.reader_takes.reads rfl (.required rfl (text_reads n) rfl (.nil _))) rfl rfl

/-- A key is read back as it was written. -/
theorem Key.reader_takes (k : Key) : Key.reader.Takes k.toJson.render k := by
  cases k with
  | name n =>
    rw [Key.toJson, render_record]
    exact tagged_takes (content_reads ((text_reads n).map Key.name))
  | «attribute» g n =>
    rw [Key.toJson, render_record]
    exact tagged_takes (content_reads (Key.attributeReader_takes g n).reads)

theorem Attributes.reader_takes (a : Attributes) :
    Attributes.reader.Takes a.toJson.render a := by
  have htime : Reader.signed64.Reads (Value.integer a.createdAt.toInt).render a.createdAt := by
    rw [render]
    exact signed64_reads a.createdAt
  rw [Attributes.toJson, render_record]
  exact record_takes
    (.required rfl htime rfl (.nullable rfl (optional_word64_reads a.maxLife) rfl (.nil _))) rfl rfl

/-! ### Records -/

/-- The bytes of a value, each as a number. -/
theorem valueBytes_reads (bytes : Bytes) :
    (Reader.list Reader.byte).Reads (Value.list (bytes.map fun b => natural b.toNat)).render
      bytes := by
  have hitem : ∀ b ∈ bytes, Reader.byte.Reads (Decimal.ofInt b.toNat) b ∧
      BeginsValue (Decimal.ofInt b.toNat) :=
    fun b _ => ⟨byte_reads b, beginsValue_ofInt _⟩
  have hparts : (bytes.map fun b => natural b.toNat).map render =
      bytes.map fun b => Decimal.ofInt b.toNat := by
    rw [List.map_map]
    refine List.map_congr_left fun b _ => ?_
    rw [Function.comp_apply, natural, render]
  rw [render_list, hparts]
  exact (list_takes hitem).reads

/-- An element is read back from its record, whatever follows the record. -/
theorem Element.reader_takes (e : Element) : Element.reader.Takes e.encode e := by
  rw [Element.encode, Element.toJson, render_record]
  exact record_takes
    (.required rfl (text_reads e.cacheName) rfl
      (.required rfl e.key.reader_takes.reads rfl
        (.required rfl (valueBytes_reads e.value) rfl
          (.required rfl e.attributes.reader_takes.reads rfl (.nil _))))) rfl rfl

theorem Slot.reader_takes (s : Slot) : Slot.reader.Takes s.toJson.render s := by
  rw [Slot.toJson, render_record]
  exact record_takes
    (.required rfl (natural_reads (word64_reads s.offset)) rfl
      (.required rfl (natural_reads (word32_reads s.length)) rfl (.nil _))) rfl rfl

namespace Json.Reader

/-- Behind a whole value nothing but blanks may stand. -/
theorem Takes.whole {α : Type} {x : Reader α} {bytes : Bytes} {a : α} (h : x.Takes bytes a)
    (rest : Bytes) :
    x.whole (bytes ++ rest) =
      if (dropBlank rest).isEmpty then .ok a else .error .malformed := by
  rw [Reader.whole, h rest]

theorem dropBlank_ne_nil {s : Bytes} {b : UInt8} (h : s.getLast? = some b)
    (hb : isBlank b = false) : (dropBlank s).isEmpty = false := by
  rw [List.isEmpty_eq_false_iff, dropBlank, Ne, List.dropWhile_eq_nil_iff]
  intro hall
  rw [hall b (List.mem_of_getLast? h)] at hb
  cases hb

end Json.Reader

namespace Element

/-- An element is read back from its record. -/
theorem decode_encode (e : Element) : decode e.encode = .ok e := by
  have h := e.reader_takes.whole []
  rwa [List.append_nil] at h

/-- A record with a rest of another one behind it, which ends in a brace, is no record. -/
theorem decode_encode_append {e : Element} {rest : Bytes}
    (h : rest.getLast? = some Ascii.closeRecord) :
    decode (e.encode ++ rest) = .error .malformed := by
  have hw := e.reader_takes.whole rest
  rw [dropBlank_ne_nil h (by decide)] at hw
  exact hw

theorem getLast?_encode (e : Element) : e.encode.getLast? = some Ascii.closeRecord := by
  rw [encode, toJson, render_record, List.getLast?_append]
  rfl

theorem encode_ne_nil (e : Element) : e.encode ≠ [] := by
  intro h
  have := e.getLast?_encode
  rw [h] at this
  cases this

theorem encode_injective {e f : Element} (h : e.encode = f.encode) : e = f := by
  have he := e.decode_encode
  rw [h, decode_encode] at he
  cases he
  rfl

end Element

/-! ### Snapshots -/

namespace Index.Snapshot

theorem entryReader_takes (e : Key × Slot) : entryReader.Takes (entryToJson e).render e := by
  rw [entryToJson, render_record]
  exact record_takes
    (.required rfl e.1.reader_takes.reads rfl
      (.required rfl e.2.reader_takes.reads rfl (.nil _))) rfl rfl

theorem list_entryReader_takes (entries : List (Key × Slot)) :
    (Reader.list entryReader).Takes (encode entries) entries := by
  have hitem : ∀ e ∈ entries, entryReader.Reads (entryToJson e).render e ∧
      BeginsValue (entryToJson e).render :=
    fun e _ => ⟨(entryReader_takes e).reads, beginsValue_record _⟩
  rw [encode, render_list, List.map_map]
  exact list_takes hitem

/-- The entries of a snapshot are read back as they were written. -/
theorem decode_encode (entries : List (Key × Slot)) : decode (encode entries) = .ok entries := by
  have h := (list_entryReader_takes entries).whole []
  rwa [List.append_nil] at h

/-- A snapshot starts with the bracket that opens its list. -/
theorem encode_eq_cons (entries : List (Key × Slot)) :
    ∃ s, encode entries = Ascii.openList :: s := by
  rw [encode, render_list]
  exact ⟨_, rfl⟩

theorem encode_ne_nil (entries : List (Key × Slot)) : encode entries ≠ [] := by
  obtain ⟨s, hs⟩ := encode_eq_cons entries
  rw [hs]
  exact List.cons_ne_nil _ _

end Index.Snapshot

end DiskTier
