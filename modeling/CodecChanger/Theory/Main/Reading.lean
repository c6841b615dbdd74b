import CodecChanger.Core.Main

/-!
# Entries That Can Be Read

What `main` asks of an entry of the configuration. It asks nothing, and reads: an accessor
that cannot convert a member throws, and nothing catches it. `isConvertibleTo` of the same
library would have told beforehand, for it is true exactly where the accessor does not throw.

## Main definitions

* `Json.Value.members`: The members of an object.
* `Json.Value.get`: The member of a name, or a null value.
* `Config.ReadableUdpip`, `Config.Readable`: An entry that can be read.

## Theorems

* `asString_ok_iff`, `asUInt_ok_iff`, `asBool_ok_iff`: Where an accessor does not throw.
* `read_ok_iff`, `read_error_iff`: Where none does.
-/

namespace CodecChanger

namespace Json.Value

variable {ρ : Type} (R : Doubles ρ) (v : Value ρ)

/-- The members of an object. A null value is made one without members, and other values
    cannot have any. -/
def members : Value ρ → Option (List (String × Value ρ))
  | nullValue => some []
  | objectValue members => some members
  | _ => none

/-- The member of a name, and a null value for one that is not there. -/
def get (members : List (String × Value ρ)) (key : String) : Value ρ :=
  (members.lookup key).getD nullValue

theorem member_of_members (l : List (String × Value ρ)) (h : v.members = some l)
    (key : String) : v.member key = .ok (get l key) := by
  cases v with
  | nullValue =>
      rw [← Option.some.inj h]
      rfl
  | objectValue members =>
      rw [← Option.some.inj h]
      rfl
  | _ => exact absurd h (by simp only [members, reduceCtorEq, not_false_eq_true])

theorem member_of_none (h : v.members = none) (key : String) :
    v.member key = .error "in Json::Value::resolveReference(key, end): requires objectValue" := by
  cases v with
  | nullValue => exact absurd h (by simp only [members, reduceCtorEq, not_false_eq_true])
  | objectValue members => exact absurd h (by simp only [Value.members, reduceCtorEq,
      not_false_eq_true])
  | _ => rfl

theorem asString_ok_iff :
    (∃ s, v.asString R = .ok s) ↔ v.isConvertibleTo R .stringValue = true := by
  cases v <;> simp [asString, isConvertibleTo, isNumeric]

theorem asUInt_ok_iff : (∃ n, v.asUInt R = .ok n) ↔ v.isConvertibleTo R .uintValue = true := by
  cases v with
  | intValue n =>
      simp only [asUInt, isConvertibleTo, decide_eq_true_eq]
      split <;> simp_all
  | uintValue n =>
      simp only [asUInt, isConvertibleTo, decide_eq_true_eq]
      split <;> simp_all
  | realValue x =>
      simp only [asUInt, isConvertibleTo]
      cases R.toUInt x <;> simp
  | _ => simp [asUInt, isConvertibleTo, isNumeric]

theorem asBool_ok_iff :
    (∃ b, v.asBool R = .ok b) ↔ v.isConvertibleTo R .booleanValue = true := by
  cases v <;> simp [asBool, isConvertibleTo, isNumeric, em]

end Json.Value

open Json.Value

namespace Config

variable {ρ : Type} (R : Json.Doubles ρ) (config : Json.Value ρ)

/-- The UDP/IP texts and ports of these members can be converted. -/
def ReadableUdpip (members : List (String × Json.Value ρ)) : Prop :=
  (∀ key ∈ ["udpip_sip", "udpip_dip"],
    (get members key).isConvertibleTo R .stringValue = true) ∧
  ∀ key ∈ ["udpip_sport", "udpip_dport"], (get members key).isConvertibleTo R .uintValue = true

/-- The entry is an object or a null value, and every member that is read, if it is there, can
    be converted to what it is read as. -/
def Readable : Prop :=
  ∃ members, config.members = some members ∧
    (∀ key ∈ ["src_codec", "dst_codec", "forward", "ip"],
      (get members key).isConvertibleTo R .stringValue = true) ∧
    (∀ key ∈ ["recv_port", "send_port"],
      (get members key).isConvertibleTo R .uintValue = true) ∧
    (∀ key ∈ ["add_udpip", "send_sc"],
      (get members key).isConvertibleTo R .booleanValue = true) ∧
    ((get members "add_udpip").asBool R = .ok true → ReadableUdpip R members)

/-- One computation after the other does not fail when neither does. -/
theorem bind_ok_iff {ε α β : Type} (x : Except ε α) (f : α → Except ε β) :
    (∃ b, (x >>= f) = .ok b) ↔ ∃ a, x = .ok a ∧ ∃ b, f a = .ok b := by
  cases x with
  | error e => simp [bind, Except.bind]
  | ok a => simp [bind, Except.bind]

theorem readUdpip_ok_iff (c : Config) (l : List (String × Json.Value ρ))
    (hl : config.members = some l) :
    (∃ c', c.readUdpip R config = .ok c') ↔ ReadableUdpip R l := by
  simp only [readUdpip, ReadableUdpip, member_of_members config l hl, bind_ok_iff,
    Except.ok.injEq, exists_eq_left', ← asString_ok_iff R, ← asUInt_ok_iff, List.forall_mem_cons,
    List.not_mem_nil, pure, Except.pure, exists_eq', and_true, exists_and_right, and_assoc,
    false_imp_iff, forall_const]

/-- No accessor throws at an entry exactly when it is readable. -/
theorem read_ok_iff : (∃ c, read R config = .ok c) ↔ Readable R config := by
  unfold Readable
  cases hl : config.members with
  | none =>
      simp only [read, member_of_none config hl, bind, Except.bind, reduceCtorEq, exists_false,
        false_and]
  | some l =>
      simp only [read, member_of_members config l hl, bind_ok_iff, Except.ok.injEq,
        exists_eq_left', ← asString_ok_iff R, ← asUInt_ok_iff, ← asBool_ok_iff R,
        List.forall_mem_cons, List.not_mem_nil, Option.some.injEq]
      -- The header is asked for last, and only if it is to be added.
      rcases (get l "add_udpip").asBool R with msg | add
      · simp only [reduceCtorEq, exists_false, false_and, and_false]
      · cases add with
        | false =>
            simp only [Except.ok.injEq, exists_eq_left', Bool.false_eq_true, if_false, pure,
              Except.pure, exists_eq', exists_and_right, and_true, false_imp_iff, forall_const]
            tauto
        | true =>
            simp only [Except.ok.injEq, exists_eq_left', if_true, exists_eq', exists_and_right,
              readUdpip_ok_iff R config _ l hl, forall_const, false_imp_iff]
            tauto

/-- An accessor throws at it exactly when it is not. -/
theorem read_error_iff : (∃ msg, read R config = .error msg) ↔ ¬ Readable R config := by
  rw [← read_ok_iff]
  rcases read R config with msg | c
  · simp only [Except.error.injEq, exists_eq', reduceCtorEq, exists_false, not_false_eq_true]
  · simp only [reduceCtorEq, exists_false, Except.ok.injEq, exists_eq', not_true_eq_false]

/-- What is read of an entry, when it can be read. -/
theorem read_and_iff (P : Config → Prop) :
    (∃ c, read R config = .ok c ∧ P c) ↔
      Readable R config ∧ ∀ c, read R config = .ok c → P c := by
  rw [← read_ok_iff]
  rcases read R config with msg | c
  · simp only [reduceCtorEq, false_and, exists_false]
  · simp only [Except.ok.injEq, exists_eq_left', exists_eq', forall_eq', true_and]

end Config

end CodecChanger
