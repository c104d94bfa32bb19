import DiskTier.FileSystem.Content
import DiskTier.Proofs.Codec.Torn

/-!
# The form of a record

`Element.layout` spells out what stands in a record, byte by byte, and `Element.encode` writes that
and nothing else. A record is read back as the element it was made of; any other text of the same
element can be brought into this form, and a text in this form stays as it is.

A record ends with the brace that closes it. So it can be told where it ends: of a record that is cut
short nothing is read, and behind one that is whole nothing but blanks may stand. A file in which a
record was overwritten by one of another length is therefore never misread, as long as it is read with
the old length.
-/

namespace DiskTier

open Json Json.Reader

/-! ### What stands in a record -/

/-- The bytes of a key. -/
def Key.layout : Key → Bytes
  | .name n => Utf8.encode "\x7b\"Name\":" ++ quoted n ++ Utf8.encode "\x7d"
  | .attribute g n =>
    Utf8.encode "\x7b\"Group\":\x7b\"group_id\":\x7b\"cache_name\":" ++ quoted g.cacheName ++
      Utf8.encode ",\"group_name\":" ++ quoted g.groupName ++
      Utf8.encode "\x7d,\"attr_name\":" ++ quoted n ++ Utf8.encode "\x7d\x7d"

/-- The bytes of the longest life in seconds. -/
def Attributes.lifeLayout (a : Attributes) : Bytes :=
  match a.maxLife with
  | none => Utf8.encode "null"
  | some seconds => Decimal.ofNat seconds.toNat

namespace Element

/-- The bytes of a record. The bytes of the value are written as numbers. -/
def layout (e : Element) : Bytes :=
  Utf8.encode "\x7b\"cache_name\":" ++ quoted e.cacheName ++
    Utf8.encode ",\"key\":" ++ e.key.layout ++
    Utf8.encode ",\"value\":[" ++ commaSeparated (e.value.map fun b => Decimal.ofNat b.toNat) ++
    Utf8.encode "],\"attributes\":\x7b\"created_at\":" ++ Decimal.ofInt e.attributes.createdAt.toInt ++
    Utf8.encode ",\"max_life_secs\":" ++ e.attributes.lifeLayout ++ Utf8.encode "\x7d\x7d"

end Element

/-! ### It is written so -/

/-- A key is written as its layout says. -/
theorem Key.render_toJson (k : Key) : k.toJson.render = k.layout := by
  have hclose : Utf8.encode "\x7d" = [Ascii.closeRecord] := by decide
  cases k with
  | name n =>
    have hopen : Utf8.encode "\x7b\"Name\":" = Ascii.openRecord :: quoted "Name" ++ [Ascii.colon] := by
      decide
    rw [Key.toJson, Key.layout, hopen, hclose]
    simp [Value.render_record, commaSeparated_cons, memberBytes, Value.render]
  | «attribute» g n =>
    have hopen : Utf8.encode "\x7b\"Group\":\x7b\"group_id\":\x7b\"cache_name\":" =
        Ascii.openRecord :: quoted "Group" ++ Ascii.colon :: Ascii.openRecord :: quoted "group_id" ++
          Ascii.colon :: Ascii.openRecord :: quoted "cache_name" ++ [Ascii.colon] := by
      decide
    have hgroup : Utf8.encode ",\"group_name\":" =
        Ascii.comma :: quoted "group_name" ++ [Ascii.colon] := by
      decide
    have hattribute : Utf8.encode "\x7d,\"attr_name\":" =
        Ascii.closeRecord :: Ascii.comma :: quoted "attr_name" ++ [Ascii.colon] := by
      decide
    have hend : Utf8.encode "\x7d\x7d" = [Ascii.closeRecord, Ascii.closeRecord] := by decide
    rw [Key.toJson, Key.layout, hopen, hgroup, hattribute, hend]
    simp [GroupId.toJson, Value.render_record, commaSeparated_cons, memberBytes, Value.render]

theorem Attributes.render_maxLife (a : Attributes) :
    (Value.optional (fun n : UInt64 => .natural n.toNat) a.maxLife).render = a.lifeLayout := by
  rw [Attributes.lifeLayout]
  cases a.maxLife with
  | none => rw [Value.optional, Value.render]
  | some seconds =>
    rw [Value.optional, Value.natural, Value.render]
    rfl

namespace Element

theorem render_value (bytes : Bytes) :
    (Value.list (bytes.map fun b => .natural b.toNat)).render =
      Ascii.openList :: commaSeparated (bytes.map fun b => Decimal.ofNat b.toNat) ++
        [Ascii.closeList] := by
  rw [Value.render_list, List.map_map]
  congr 3
  refine List.map_congr_left fun b _ => ?_
  show (Value.natural b.toNat).render = _
  rw [Value.natural, Value.render]
  rfl

/-- A record is written as its layout says. -/
theorem encode_eq_layout (e : Element) : e.encode = e.layout := by
  have hopen : Utf8.encode "\x7b\"cache_name\":" =
      Ascii.openRecord :: quoted "cache_name" ++ [Ascii.colon] := by
    decide
  have hkey : Utf8.encode ",\"key\":" = Ascii.comma :: quoted "key" ++ [Ascii.colon] := by decide
  have hvalue : Utf8.encode ",\"value\":[" =
      Ascii.comma :: quoted "value" ++ [Ascii.colon, Ascii.openList] := by
    decide
  have hattributes : Utf8.encode "],\"attributes\":\x7b\"created_at\":" =
      Ascii.closeList :: Ascii.comma :: quoted "attributes" ++ Ascii.colon :: Ascii.openRecord ::
        quoted "created_at" ++ [Ascii.colon] := by
    decide
  have hlife : Utf8.encode ",\"max_life_secs\":" =
      Ascii.comma :: quoted "max_life_secs" ++ [Ascii.colon] := by
    decide
  have hend : Utf8.encode "\x7d\x7d" = [Ascii.closeRecord, Ascii.closeRecord] := by decide
  have htext : (Value.text e.cacheName).render = quoted e.cacheName := by rw [Value.render]
  have htime : (Value.integer e.attributes.createdAt.toInt).render =
      Decimal.ofInt e.attributes.createdAt.toInt := by
    rw [Value.render]
  rw [layout, hopen, hkey, hvalue, hattributes, hlife, hend]
  simp [encode, toJson, Attributes.toJson, Value.render_record, commaSeparated_cons, memberBytes,
    htext, htime, e.key.render_toJson, render_value, e.attributes.render_maxLife]

/-! ### Reading it back -/

/-- The record of the element that a text holds, in whatever form. -/
def canonical (record : Bytes) : Except Fault Bytes := encode <$> decode record

theorem canonical_encode (e : Element) : canonical e.encode = .ok e.encode := by
  rw [canonical, decode_encode]
  rfl

/-- **Elements and their records correspond.** An element is read back from its record, so that two
elements never have the same one; a record that was made of another record of the same element is
made of itself; and each byte of it is known. -/
theorem record_tells_element :
    (∀ e : Element, decode e.encode = .ok e) ∧
      (∀ e f : Element, e.encode = f.encode ↔ e = f) ∧
      (∀ record : Bytes, canonical record >>= canonical = canonical record) ∧
      ∀ e : Element, e.encode = e.layout := by
  refine ⟨decode_encode, fun e f => ⟨encode_injective, congrArg encode⟩, fun record => ?_,
    encode_eq_layout⟩
  cases hread : decode record with
  | error fault =>
    rw [canonical, hread]
    rfl
  | ok e =>
    have hcanonical : canonical record = .ok e.encode := by
      rw [canonical, hread]
      rfl
    rw [hcanonical]
    exact canonical_encode e

end Element

/-! ### Records that were cut or overwritten -/

namespace Content

theorem length_toList_resize (n : Nat) (c : Content) : (c.resize n).toList.length = n := by
  rw [toList_resize, List.length_append, List.length_take, List.length_replicate, length_toList]
  omega

theorem toList_write_resize (offset : Nat) (bytes : Bytes) (c : Content) :
    (c.write offset bytes).toList =
      (c.resize offset).toList ++ (bytes ++ c.toList.drop (offset + bytes.length)) := by
  simp [write, toList_cons, toList_drop]

/-- A write that begins where the file ends or before leaves what comes first. -/
theorem toList_resize_write (offset : Nat) (bytes : Bytes) (c : Content) :
    ((c.write offset bytes).resize offset).toList = (c.resize offset).toList := by
  have hlen := length_toList_resize offset c
  have hsize : offset ≤ (c.write offset bytes).size := by
    rw [← length_toList, toList_write_resize, List.length_append, hlen]
    exact Nat.le_add_right _ _
  rw [toList_resize, Nat.sub_eq_zero_of_le hsize, List.replicate_zero, List.append_nil,
    toList_write_resize]
  exact List.take_left' hlen

/-- Where something was written, and then something else: the new bytes, and what they leave of the
old ones. -/
theorem read?_write_write (c : Content) (offset : Nat) (old new : Bytes) :
    ((c.write offset old).write offset new).read? offset old.length =
      some ((new ++ old.drop new.length).take old.length) := by
  have hlen := length_toList_resize offset c
  have hlist : ((c.write offset old).write offset new).toList = (c.resize offset).toList ++
      (new ++ (old ++ c.toList.drop (offset + old.length)).drop new.length) := by
    rw [toList_write_resize, toList_resize_write, toList_write_resize, ← List.drop_drop,
      List.drop_left' hlen]
  have hsize : offset + old.length ≤ ((c.write offset old).write offset new).size := by
    rw [← length_toList, hlist]
    simp only [List.length_append, List.length_drop, hlen]
    omega
  have hcover : old.length ≤ (new ++ old.drop new.length).length := by
    rw [List.length_append, List.length_drop]
    omega
  rw [read?_eq, if_pos (.inl hsize), hlist, List.drop_left' hlen, List.drop_append,
    ← List.append_assoc, List.take_append_of_le_length hcover]

end Content

namespace Element

/-- Behind a record nothing but blanks may stand. -/
theorem decode_encode_append_eq (e : Element) (rest : Bytes) :
    decode (e.encode ++ rest) = if rest.all isBlank then .ok e else .error .malformed := by
  have hblank : (dropBlank rest).isEmpty ↔ rest.all isBlank := by
    rw [List.isEmpty_iff, dropBlank, List.dropWhile_eq_nil_iff, List.all_eq_true]
  rw [decode, e.reader_takes.whole rest]
  exact if_congr hblank rfl rfl

theorem decode_take_iff (e f : Element) (n : Nat) :
    decode (e.encode.take n) = .ok f ↔ f = e ∧ e.encode.length ≤ n := by
  refine ⟨decode_take, ?_⟩
  rintro ⟨rfl, hlen⟩
  rw [List.take_of_length_le hlen]
  exact decode_encode f

/-- What is read in the place of an old record, with its length, is the new record that was written
there if this is as long, and nothing otherwise. -/
theorem decode_overwritten (e old f : Element) :
    decode ((e.encode ++ old.encode.drop e.encode.length).take old.encode.length) = .ok f ↔
      f = e ∧ e.encode.length = old.encode.length := by
  rcases Nat.lt_or_ge e.encode.length old.encode.length with hshort | hlong
  · -- the old record is longer, and its last brace is still there
    have hlen : (e.encode ++ old.encode.drop e.encode.length).length = old.encode.length := by
      rw [List.length_append, List.length_drop]
      omega
    have hlast : (old.encode.drop e.encode.length).getLast? = some Ascii.closeRecord := by
      rw [List.getLast?_drop, if_neg (Nat.not_le.2 hshort), old.getLast?_encode]
    rw [List.take_of_length_le (Nat.le_of_eq hlen), decode_encode_append hlast]
    constructor
    · intro h
      cases h
    · rintro ⟨-, heq⟩
      exact absurd heq (Nat.ne_of_lt hshort)
  · rw [List.drop_of_length_le hlong, List.append_nil, decode_take_iff]
    exact and_congr_right fun _ => ⟨fun hle => Nat.le_antisymm hle hlong, Nat.le_of_eq⟩

/-- **A record shows where it ends.** Its first bytes are read only if they are all of it, and with
more bytes behind it, it is read only if these are blanks. So if a record was written in the place of
another one, and that place is read as it was listed before, the new record is found if both are of
the same length; else it is an error, and no element. -/
theorem record_shows_its_end (e : Element) :
    (∀ (n : Nat) (f : Element), decode (e.encode.take n) = .ok f ↔ f = e ∧ e.encode.length ≤ n) ∧
      (∀ rest : Bytes, decode (e.encode ++ rest) =
        if rest.all isBlank then .ok e else .error .malformed) ∧
      ∀ (c : Content) (offset : Nat) (old : Element), ∃ found,
        ((c.write offset old.encode).write offset e.encode).read? offset old.encode.length =
          some found ∧
        ∀ f : Element, decode found = .ok f ↔ f = e ∧ e.encode.length = old.encode.length :=
  ⟨fun n f => decode_take_iff e f n, decode_encode_append_eq e, fun c offset old =>
    ⟨_, c.read?_write_write offset old.encode e.encode, decode_overwritten e old⟩⟩

end Element

end DiskTier
