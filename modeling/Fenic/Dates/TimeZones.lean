import Fenic.Lib.Except
import Mathlib.Data.List.Nodup

/-!
# `Dates.TimeZones` — `to_utc_timestamp` and `from_utc_timestamp`

A timestamp column holds instants and the time zone to show them in. `convert_time_zone` changes what is shown, `replace_time_zone` keeps
what is shown and looks for the instant at which the clock of the other zone shows it. Around a change of the offset there can be none
or several, and one row without a single instant fails the column (`exists_toUtc_iff`); towards UTC every clock time has one.
-/

namespace Fenic

namespace TimeZones

/-- A time zone: the offset of its clock at every instant, which is one of finitely many. -/
structure TimeZone where
  offset : Int → Int
  offsets : List Int
  offset_mem : ∀ t, offset t ∈ offsets
  nodup_offsets : offsets.Nodup

def TimeZone.wallClock (zone : TimeZone) (t : Int) : Int := t + zone.offset t

/-- The instants at which the clock shows `w`. -/
def TimeZone.instants (zone : TimeZone) (w : Int) : List Int :=
  (zone.offsets.map fun offset => w - offset).filter fun t => decide (zone.wallClock t = w)

def utc : TimeZone where
  offset _ := 0
  offsets := [0]
  offset_mem _ := List.mem_singleton_self 0
  nodup_offsets := List.nodup_singleton 0

inductive TimeZoneError where
  | nonExistent (w : Int)
  | ambiguous (w : Int)

/-- A `Datetime` column: instants, with the zone they are shown in. -/
@[ext] structure DatetimeColumn where
  timeZone : TimeZone
  values : List (Option Int)

def DatetimeColumn.convertTimeZone (column : DatetimeColumn) (zone : TimeZone) : DatetimeColumn :=
  { column with timeZone := zone }

/-- The instant for a clock time, with the defaults `non_existent="raise"` and `ambiguous="raise"`. -/
def TimeZone.localize (zone : TimeZone) (w : Int) : Except TimeZoneError Int :=
  match zone.instants w with
  | [] => .error (.nonExistent w)
  | [t] => .ok t
  | _ => .error (.ambiguous w)

def replaceValue (shown zone : TimeZone) : Option Int → Except TimeZoneError (Option Int)
  | none => .ok none
  | some t => (zone.localize (shown.wallClock t)).map some

def DatetimeColumn.replaceTimeZone (column : DatetimeColumn) (zone : TimeZone) : Except TimeZoneError DatetimeColumn := do
  let values ← column.values.mapM (replaceValue column.timeZone zone)
  return { timeZone := zone, values := values }

/-- `_convert_to_utc_timestamp_expr`. -/
def toUtcTimestamp (timezone : TimeZone) (column : DatetimeColumn) : Except TimeZoneError DatetimeColumn := do
  let column ← column.replaceTimeZone timezone
  return column.convertTimeZone utc

/-- `_convert_from_utc_timestamp_expr`. -/
def fromUtcTimestamp (timezone : TimeZone) (column : DatetimeColumn) : Except TimeZoneError DatetimeColumn :=
  (column.convertTimeZone timezone).replaceTimeZone utc

/-! ## The clock times of a zone -/

variable {zone : TimeZone} {w t : Int}

/-- A clock time that exists in the zone and does not occur twice. -/
def Once (zone : TimeZone) (w : Int) : Prop := ∃! t, zone.wallClock t = w

theorem mem_instants : t ∈ zone.instants w ↔ zone.wallClock t = w := by
  rw [TimeZone.instants, List.mem_filter, decide_eq_true_iff]
  refine and_iff_right_of_imp fun h => List.mem_map.mpr ⟨zone.offset t, zone.offset_mem t, ?_⟩
  unfold TimeZone.wallClock at h
  omega

theorem nodup_instants (zone : TimeZone) (w : Int) : (zone.instants w).Nodup := by
  apply List.Nodup.filter
  apply zone.nodup_offsets.map
  intro offset offset' h
  simp only at h
  omega

theorem localize_eq_ok : zone.localize w = .ok t ↔ zone.instants w = [t] := by
  unfold TimeZone.localize
  split
  · next h => simp [h]
  · next h => simp [h]
  · next hone =>
    constructor
    · intro h
      cases h
    · intro h
      exact absurd h (hone t)

theorem localize_eq_ok_iff : zone.localize w = .ok t ↔ zone.wallClock t = w ∧ ∀ t', zone.wallClock t' = w → t' = t := by
  simp only [localize_eq_ok, ← mem_instants]
  constructor
  · intro h
    simp [h]
  · rintro ⟨hmem, hall⟩
    have hperm := (List.perm_ext_iff_of_nodup (nodup_instants zone w) (List.nodup_singleton t)).mpr fun t' => by
      rw [List.mem_singleton]
      exact ⟨hall t', fun h => h ▸ hmem⟩
    exact List.perm_singleton.mp hperm

theorem exists_localize_iff : (∃ t, zone.localize w = .ok t) ↔ Once zone w := exists_congr fun _ => localize_eq_ok_iff

/-- Every instant is shown by one clock time, so it is found again where that time occurs once. -/
theorem localize_wallClock (h : Once zone (zone.wallClock t)) : zone.localize (zone.wallClock t) = .ok t := by
  obtain ⟨t', -, hall⟩ := h
  refine localize_eq_ok_iff.mpr ⟨rfl, fun t'' ht'' => ?_⟩
  rw [hall t'' ht'', hall t rfl]

theorem wallClock_utc (t : Int) : utc.wallClock t = t := Int.add_zero t

theorem localize_utc (w : Int) : utc.localize w = .ok w :=
  localize_eq_ok_iff.mpr ⟨wallClock_utc w, fun t h => (wallClock_utc t).symm.trans h⟩

/-! ## Columns -/

variable {values : List (Option Int)}

/-- A column of `TimestampType`. -/
def timestamps (values : List (Option Int)) : DatetimeColumn := ⟨utc, values⟩

def AllOnce (zone : TimeZone) (values : List (Option Int)) : Prop := ∀ w, some w ∈ values → Once zone w

theorem fromUtc_eq (zone : TimeZone) (values : List (Option Int)) :
    fromUtcTimestamp zone (timestamps values) = .ok (timestamps (values.map (Option.map zone.wallClock))) := by
  have hvalues : values.mapM (replaceValue zone utc) = .ok (values.map (Option.map zone.wallClock)) := by
    apply Except.mapM_eq_ok_map
    intro value _
    cases value with
    | none => rfl
    | some t =>
      rw [replaceValue, localize_utc]
      rfl
  show (values.mapM (replaceValue zone utc) >>= _) = _
  rw [hvalues]
  rfl

theorem toUtc_eq (zone : TimeZone) (values : List (Option Int)) :
    toUtcTimestamp zone (timestamps values) = (values.mapM (replaceValue utc zone)).map timestamps := by
  show ((values.mapM (replaceValue utc zone) >>= _) >>= _) = _
  cases values.mapM (replaceValue utc zone) with
  | error e => rfl
  | ok values' => rfl

theorem exists_replaceValue_iff {value : Option Int} :
    (∃ value', replaceValue utc zone value = .ok value') ↔ ∀ w, value = some w → Once zone w := by
  cases value with
  | none => exact iff_of_true ⟨none, rfl⟩ nofun
  | some w =>
    rw [replaceValue, wallClock_utc]
    simp only [Except.map_eq_ok, Option.some_inj, forall_eq', ← exists_localize_iff]
    exact ⟨fun ⟨_, t, h, _⟩ => ⟨t, h⟩, fun ⟨t, h⟩ => ⟨some t, t, h, rfl⟩⟩

theorem exists_toUtc_iff : (∃ out, toUtcTimestamp zone (timestamps values) = .ok out) ↔ AllOnce zone values := by
  have hvalues : (∃ values', values.mapM (replaceValue utc zone) = .ok values') ↔ AllOnce zone values := by
    rw [Except.exists_mapM_eq_ok]
    simp only [exists_replaceValue_iff]
    constructor
    · exact fun h w hw => h _ hw w rfl
    · rintro h _ hvalue w rfl
      exact h w hvalue
  rw [← hvalues, toUtc_eq]
  simp only [Except.map_eq_ok]
  exact ⟨fun ⟨_, values', h, _⟩ => ⟨values', h⟩, fun ⟨values', h⟩ => ⟨_, values', h, rfl⟩⟩

theorem replaceValue_eq_ok {value value' : Option Int} (h : replaceValue utc zone value = .ok value') :
    value = value'.map zone.wallClock := by
  cases value with
  | none =>
    cases h
    rfl
  | some w =>
    rw [replaceValue, wallClock_utc] at h
    obtain ⟨t, ht, rfl⟩ := Except.map_eq_ok.mp h
    exact congrArg some (localize_eq_ok_iff.mp ht).1.symm

/-- What `to_utc_timestamp` returns shows the values that it was given. -/
theorem toUtc_eq_ok {out : DatetimeColumn} (h : toUtcTimestamp zone (timestamps values) = .ok out) :
    ∃ values', out = timestamps values' ∧ values = values'.map (Option.map zone.wallClock) := by
  rw [toUtc_eq] at h
  obtain ⟨values', hvalues, rfl⟩ := Except.map_eq_ok.mp h
  refine ⟨values', rfl, List.forall₂_eq_eq_eq ▸ List.forall₂_map_right_iff.mpr ?_⟩
  exact (Except.mapM_eq_ok.mp hvalues).imp fun _ _ => replaceValue_eq_ok

theorem from_to {out : DatetimeColumn} (h : toUtcTimestamp zone (timestamps values) = .ok out) :
    fromUtcTimestamp zone out = .ok (timestamps values) := by
  obtain ⟨values', rfl, hvalues⟩ := toUtc_eq_ok h
  rw [fromUtc_eq, hvalues]

/-- The values of a column that is shown in the zone and read back. -/
theorem to_from (h : AllOnce zone (values.map (Option.map zone.wallClock))) :
    toUtcTimestamp zone (timestamps (values.map (Option.map zone.wallClock))) = .ok (timestamps values) := by
  have hvalues : (values.map (Option.map zone.wallClock)).mapM (replaceValue utc zone) = .ok values := by
    rw [Except.mapM_eq_ok, List.forall₂_map_left_iff, List.forall₂_same]
    intro value hvalue
    cases value with
    | none => rfl
    | some t =>
      have honce := h (zone.wallClock t) (List.mem_map.mpr ⟨some t, hvalue, rfl⟩)
      show (zone.localize (utc.wallClock (zone.wallClock t))).map some = .ok (some t)
      rw [wallClock_utc, localize_wallClock honce]
      rfl
  rw [toUtc_eq, hvalues]
  rfl

theorem allOnce_wallClock_iff : AllOnce zone (values.map (Option.map zone.wallClock)) ↔ ∀ t, some t ∈ values → Once zone (zone.wallClock t) := by
  constructor
  · intro h t ht
    exact h _ (List.mem_map.mpr ⟨some t, ht, rfl⟩)
  · intro h w hw
    obtain ⟨value, hvalue, heq⟩ := List.mem_map.mp hw
    obtain ⟨t, rfl, rfl⟩ := Option.map_eq_some_iff.mp heq
    exact h t hvalue

/-! ## What the two functions promise -/

/-- A conversion that succeeds on every row and keeps the nulls. -/
def Total (convert : DatetimeColumn → Except TimeZoneError DatetimeColumn) (values : List (Option Int)) : Prop :=
  ∃ out, convert (timestamps values) = .ok out ∧ List.Forall₂ (fun value value' => value = none ↔ value' = none) values out.values

/-- Both are total, and each undoes the other where that is possible. -/
structure Inverse (zone : TimeZone) (values : List (Option Int)) : Prop where
  from_total : Total (fromUtcTimestamp zone) values
  to_total : Total (toUtcTimestamp zone) values
  to_from : ∀ (i : Nat) (t : Int), values[i]? = some (some t) → Once zone (zone.wallClock t) →
    ∃ out, (fromUtcTimestamp zone (timestamps values) >>= toUtcTimestamp zone) = .ok out ∧ out.values[i]? = some (some t)
  from_to : ∀ (i : Nat) (w : Int), values[i]? = some (some w) → (∃ t, zone.wallClock t = w) →
    ∃ out, (toUtcTimestamp zone (timestamps values) >>= fromUtcTimestamp zone) = .ok out ∧ out.values[i]? = some (some w)

theorem from_total (zone : TimeZone) (values : List (Option Int)) : Total (fromUtcTimestamp zone) values := by
  refine ⟨_, fromUtc_eq zone values, ?_⟩
  rw [timestamps, List.forall₂_map_right_iff, List.forall₂_same]
  exact fun value _ => Option.map_eq_none_iff.symm

theorem to_total (h : AllOnce zone values) : Total (toUtcTimestamp zone) values := by
  obtain ⟨out, hout⟩ := exists_toUtc_iff.mpr h
  obtain ⟨values', rfl, hvalues⟩ := toUtc_eq_ok hout
  refine ⟨_, hout, ?_⟩
  rw [hvalues, timestamps, List.forall₂_map_left_iff, List.forall₂_same]
  exact fun value _ => Option.map_eq_none_iff

/-- **The conversions are total and inverse** where every value is a clock time that occurs once, and the clock times of the values occur
once for all of them if they do for one. -/
theorem inverse_iff (zone : TimeZone) (values : List (Option Int)) :
    Inverse zone values ↔
      AllOnce zone values ∧
        ((∃ t, some t ∈ values ∧ Once zone (zone.wallClock t)) → ∀ t, some t ∈ values → Once zone (zone.wallClock t)) := by
  constructor
  · intro h
    obtain ⟨out, hout, -⟩ := h.to_total
    refine ⟨exists_toUtc_iff.mp ⟨out, hout⟩, ?_⟩
    rintro ⟨t, ht, honce⟩
    obtain ⟨i, hi⟩ := List.mem_iff_getElem?.mp ht
    obtain ⟨back, hback, -⟩ := h.to_from i t hi honce
    rw [fromUtc_eq, Except.ok_bind] at hback
    exact allOnce_wallClock_iff.mp (exists_toUtc_iff.mp ⟨back, hback⟩)
  · rintro ⟨hall, hshown⟩
    refine ⟨from_total zone values, to_total hall, fun i t hi honce => ?_, fun i w hi _ => ?_⟩
    · have hvalues := hshown ⟨t, List.mem_of_getElem? hi, honce⟩
      refine ⟨timestamps values, ?_, hi⟩
      rw [fromUtc_eq, Except.ok_bind]
      exact to_from (allOnce_wallClock_iff.mpr hvalues)
    · obtain ⟨out, hout⟩ := exists_toUtc_iff.mpr hall
      refine ⟨timestamps values, ?_, hi⟩
      rw [hout, Except.ok_bind]
      exact from_to hout

/-- The clock is put back by 60 at instant 100. -/
def clockPutBack : TimeZone where
  offset t := if t < 100 then 60 else 0
  offsets := [60, 0]
  offset_mem t := by split <;> simp
  nodup_offsets := by decide

/-- 130 is shown twice, at 70 and at 130. -/
theorem overlap_not_inverse : ¬ Inverse clockPutBack [some 130] := by
  intro h
  obtain ⟨_, hout, -⟩ := h.to_total
  cases hout

end TimeZones

end Fenic
