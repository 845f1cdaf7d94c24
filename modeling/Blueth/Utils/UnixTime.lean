/-
# Blueth.Utils.UnixTime — an instant, and its broken-down form (`utils/UnixTime.hpp`).

A `UnixTime` keeps an instant twice: as `unix_time_`, which the operators compare, add and subtract, and as
`time_struct_`, which the getters and `getStringTime` read. Most operations write the pair from the instant,
with `localtime`; two write it from a broken-down time, with `mktime`, which normalises its argument in
place. The constructor copies the argument after that call and `setUnixTimeStruct` before it, so that the
setter keeps a `time_struct_` that nobody has normalised.

The C library is a parameter. What is assumed of it is assumed of the broken-down times that a run passes
to it (`LibC.Normalises`), for `mktime` fails on some. An operation that dereferences the null pointer of
`localtime`, or overflows, has no result.
-/
import Mathlib.Algebra.Ring.Int.Defs
import Mathlib.Algebra.Ring.Nat
import Mathlib.Logic.Function.Basic
import Blueth.Http.ParserCommon
import Blueth.Transition.System

set_option autoImplicit false

namespace Blueth.Time

open Blueth.Http (ch str)
open Blueth.Transition (System)

/-! ## The C library -/

/-- `struct tm`. -/
structure Tm where
  tmSec : Int32
  tmMin : Int32
  tmHour : Int32
  tmMday : Int32
  tmMon : Int32
  tmYear : Int32
  tmWday : Int32
  tmYday : Int32
  tmIsdst : Int32
  tmGmtoff : Int64
  tmZone : List UInt8
  deriving DecidableEq, Repr

/-- The functions the class calls: `localtime`, where `none` is a null pointer; `mktime` with the value it
returns and what it leaves in its argument; and the text `strftime` leaves in a buffer of a given size. -/
structure LibC where
  localtime : Int64 → Option Tm
  mktime : Tm → Int64 × Tm
  strftime : ℕ → List UInt8 → Tm → List UInt8

/-- `mktime` normalises `tm` in place, and `localtime` of what it returns is the normalised `tm`. -/
def LibC.Normalises (c : LibC) (tm : Tm) : Prop := c.localtime (c.mktime tm).1 = some (c.mktime tm).2

instance (c : LibC) (tm : Tm) : Decidable (c.Normalises tm) := inferInstanceAs (Decidable (_ = _))

/-- The result of an addition or subtraction of `time_t`s, unless it overflows. -/
def timeT (n : Int) : Option Int64 := if -2 ^ 63 ≤ n ∧ n < 2 ^ 63 then some (Int64.ofInt n) else none

/-! ## The class -/

structure UnixTime where
  unixTime : Int64
  timeStruct : Tm
  deriving DecidableEq, Repr

namespace UnixTime

variable (c : LibC)

/-- `UnixTime(time_t)`. -/
def ofTime (unixTime : Int64) : Option UnixTime :=
  (c.localtime unixTime).map fun timeStruct => ⟨unixTime, timeStruct⟩

/-- `UnixTime()`, where `::time` stores `answer`. -/
def now (answer : Int64) : Option UnixTime :=
  (c.localtime answer).map fun timeStruct => ⟨answer, timeStruct⟩

/-- `UnixTime(tm)`: `unix_time_` is initialised first, and `mktime` has been at the argument when
`time_struct_` is initialised with it. -/
def ofStruct (timeStruct : Tm) : UnixTime :=
  let (unixTime, timeStruct) := c.mktime timeStruct
  ⟨unixTime, timeStruct⟩

def setUnixTime (u : UnixTime) (unixTime : Int64) : Option UnixTime :=
  (c.localtime unixTime).map fun timeStruct => { u with unixTime := unixTime, timeStruct := timeStruct }

/-- `setUnixTimeStruct`: the member is assigned, and then `mktime` normalises the argument. -/
def setUnixTimeStruct (u : UnixTime) (timeStruct : Tm) : UnixTime :=
  let u := { u with timeStruct := timeStruct }
  let (unixTime, _) := c.mktime timeStruct
  { u with unixTime := unixTime }

/-- `operator+`. -/
def add (x y : UnixTime) : Option UnixTime :=
  (timeT (x.unixTime.toInt + y.unixTime.toInt)).bind (ofTime c)

/-- `operator-`. -/
def sub (x y : UnixTime) : Option UnixTime :=
  (timeT (x.unixTime.toInt - y.unixTime.toInt)).bind (ofTime c)

def timeFormat : List UInt8 := str "%a %Y-%m-%d %H:%M:%S %Z"

def getStringTime (u : UnixTime) : List UInt8 := c.strftime 100 timeFormat u.timeStruct

def getStringFromUnixTime (unixTime : Int64) : Option (List UInt8) :=
  (c.localtime unixTime).map (c.strftime 100 timeFormat)

def getUnixTime (u : UnixTime) : Int64 := u.unixTime
def getSeconds (u : UnixTime) : Int32 := u.timeStruct.tmSec
def getMinutes (u : UnixTime) : Int32 := u.timeStruct.tmMin
def getHours (u : UnixTime) : Int32 := u.timeStruct.tmHour
def getDayOfTheMonth (u : UnixTime) : Int32 := u.timeStruct.tmMday
def getMonth (u : UnixTime) : Int32 := u.timeStruct.tmMon
def getDayOfTheWeek (u : UnixTime) : Int32 := u.timeStruct.tmWday
def getYear (u : UnixTime) : Int32 := u.timeStruct.tmYear

/-- What the four comparison operators have in common: they look at `unix_time_`. -/
def compareBy (r : Int64 → Int64 → Bool) (x y : UnixTime) : Bool := r x.unixTime y.unixTime

def equal : UnixTime → UnixTime → Bool := compareBy fun x y => x == y
def notEqual : UnixTime → UnixTime → Bool := compareBy fun x y => x != y
def less : UnixTime → UnixTime → Bool := compareBy fun x y => x < y
def greater : UnixTime → UnixTime → Bool := compareBy fun x y => y < x

/-! ## The two forms of an instant -/

/-- The getters read what `tm` says. -/
structure Describes (u : UnixTime) (tm : Tm) : Prop where
  seconds : u.getSeconds = tm.tmSec
  minutes : u.getMinutes = tm.tmMin
  hours : u.getHours = tm.tmHour
  dayOfTheMonth : u.getDayOfTheMonth = tm.tmMday
  month : u.getMonth = tm.tmMon
  dayOfTheWeek : u.getDayOfTheWeek = tm.tmWday
  year : u.getYear = tm.tmYear

/-- The two forms agree, and so do what is printed of them and what the getters read. -/
structure Agrees (u : UnixTime) : Prop where
  timeStruct : c.localtime u.unixTime = some u.timeStruct
  string : getStringFromUnixTime c u.getUnixTime = some (u.getStringTime c)
  getters : ∀ tm, c.localtime u.getUnixTime = some tm → u.Describes tm

variable {c} {u x y : UnixTime} {tm : Tm} {unixTime : Int64}

theorem describes_self : u.Describes u.timeStruct := ⟨rfl, rfl, rfl, rfl, rfl, rfl, rfl⟩

/-- The string and the getters follow the struct. -/
theorem agrees_iff : u.Agrees c ↔ c.localtime u.unixTime = some u.timeStruct := by
  constructor
  · exact Agrees.timeStruct
  · intro h
    refine ⟨h, ?_, ?_⟩
    · rw [getStringFromUnixTime, getUnixTime, h]
      rfl
    · intro tm htm
      obtain rfl := Option.some.inj (h.symm.trans htm)
      exact describes_self

/-- **Written from the instant.** -/
theorem ofTime_agrees (h : ofTime c unixTime = some u) : u.Agrees c := by
  obtain ⟨timeStruct, hlocal, rfl⟩ := Option.map_eq_some_iff.mp h
  exact agrees_iff.mpr hlocal

theorem setUnixTime_agrees (h : u.setUnixTime c unixTime = some x) : x.Agrees c := by
  obtain ⟨timeStruct, hlocal, rfl⟩ := Option.map_eq_some_iff.mp h
  exact agrees_iff.mpr hlocal

theorem add_agrees (h : x.add c y = some u) : u.Agrees c := by
  obtain ⟨unixTime, -, hmade⟩ := Option.bind_eq_some_iff.mp h
  exact ofTime_agrees hmade

theorem sub_agrees (h : x.sub c y = some u) : u.Agrees c := by
  obtain ⟨unixTime, -, hmade⟩ := Option.bind_eq_some_iff.mp h
  exact ofTime_agrees hmade

/-- **Written from a broken-down time**: the constructor copies what `mktime` has left. -/
theorem ofStruct_agrees (hlibc : c.Normalises tm) : (ofStruct c tm).Agrees c := agrees_iff.mpr hlibc

/-- The setter copies what it was given, so that has to be normalised. -/
theorem setUnixTimeStruct_agrees_iff (hlibc : c.Normalises tm) :
    (u.setUnixTimeStruct c tm).Agrees c ↔ (c.mktime tm).2 = tm := by
  rw [agrees_iff]
  show c.localtime (c.mktime tm).1 = some tm ↔ _
  rw [hlibc, Option.some.injEq]

theorem unixTime_eq_of_equal (h : x.equal y = true) : x.unixTime = y.unixTime := beq_iff_eq.mp h

/-- The four operators are one total order of the instants. -/
theorem comparisons_total (x y : UnixTime) :
    x.notEqual y = !x.equal y ∧ x.greater y = y.less x ∧
      (x.less y = true ∨ x.equal y = true ∨ x.greater y = true) := by
  refine ⟨rfl, rfl, ?_⟩
  simp only [less, equal, greater, compareBy, decide_eq_true_eq, beq_iff_eq, Int64.lt_iff_toInt_lt,
    ← Int64.toInt_inj]
  omega

/-- Objects that compare equal are on the same side of every other. -/
theorem compareBy_of_equal (h : x.equal y = true) (r : Int64 → Int64 → Bool) (z : UnixTime) :
    compareBy r x z = compareBy r y z ∧ compareBy r z x = compareBy r z y := by
  simp only [compareBy, unixTime_eq_of_equal h, and_self]

/-- Two objects that compare equal show the same time. -/
theorem Agrees.of_equal (hx : x.Agrees c) (hy : y.Agrees c) (h : x.equal y = true) :
    x.timeStruct = y.timeStruct := by
  have hlocal := hx.timeStruct
  rw [unixTime_eq_of_equal h] at hlocal
  exact Option.some.inj (hlocal.symm.trans hy.timeStruct)

end UnixTime

/-! ## Runs -/

variable {ι : Type*}

/-- The operations of a run. -/
inductive TimeCall (ι : Type*) where
  | now (target : ι) (answer : Int64)
  | ofTime (target : ι) (unixTime : Int64)
  | ofStruct (target : ι) (timeStruct : Tm)
  | add (target x y : ι)
  | sub (target x y : ι)
  | setUnixTime (target : ι) (unixTime : Int64)
  | setUnixTimeStruct (target : ι) (timeStruct : Tm)
  deriving DecidableEq

namespace TimeCall

/-- The object written. -/
def target : TimeCall ι → ι
  | .now i _ | .ofTime i _ | .ofStruct i _ | .add i _ _ | .sub i _ _ => i
  | .setUnixTime i _ | .setUnixTimeStruct i _ => i

/-- What it holds then. -/
def result (c : LibC) (objs : ι → Option UnixTime) : TimeCall ι → Option UnixTime
  | .now _ answer => UnixTime.now c answer
  | .ofTime _ unixTime => UnixTime.ofTime c unixTime
  | .ofStruct _ timeStruct => some (UnixTime.ofStruct c timeStruct)
  | .add _ x y => (objs x).bind fun x => (objs y).bind fun y => x.add c y
  | .sub _ x y => (objs x).bind fun x => (objs y).bind fun y => x.sub c y
  | .setUnixTime i unixTime => (objs i).bind fun u => u.setUnixTime c unixTime
  | .setUnixTimeStruct i timeStruct => (objs i).map fun u => u.setUnixTimeStruct c timeStruct

/-- The C library treats the broken-down time passed to it, if there is one, as it documents. -/
def Assumes (c : LibC) : TimeCall ι → Prop
  | .ofStruct _ timeStruct => c.Normalises timeStruct
  | .setUnixTimeStruct _ timeStruct => c.Normalises timeStruct
  | _ => True

/-- A broken-down time passed to the setter is in its normal form already. -/
def SetsNormalised (c : LibC) : TimeCall ι → Prop
  | .setUnixTimeStruct _ timeStruct => (c.mktime timeStruct).2 = timeStruct
  | _ => True

end TimeCall

/-- The objects of a program, none at first. A construction may write an object there is already, which is
the construction of a temporary and its assignment. -/
def unixTimes [DecidableEq ι] (c : LibC) : System (ι → Option UnixTime) (TimeCall ι) where
  init objs := ∀ i, objs i = none
  next objs call objs' :=
    ∃ u, call.result c objs = some u ∧ objs' = Function.update objs call.target (some u)

/-- **The two forms agree in every object**, and objects that compare equal show the same time. -/
structure AllAgree (c : LibC) (objs : ι → Option UnixTime) : Prop where
  each : ∀ i u, objs i = some u → u.Agrees c
  equal : ∀ i j x y, objs i = some x → objs j = some y → x.equal y = true →
    x.Describes y.timeStruct ∧ x.getStringTime c = y.getStringTime c

section Runs

variable {c : LibC} {objs objs' : ι → Option UnixTime} {call : TimeCall ι} {calls : List (TimeCall ι)}
  {u : UnixTime}

theorem allAgree_iff : AllAgree c objs ↔ ∀ i u, objs i = some u → u.Agrees c := by
  constructor
  · exact AllAgree.each
  · intro h
    refine ⟨h, ?_⟩
    intro i j x y hi hj hequal
    have hsame := (h i x hi).of_equal (h j y hj) hequal
    refine ⟨hsame ▸ UnixTime.describes_self, ?_⟩
    rw [UnixTime.getStringTime, UnixTime.getStringTime, hsame]

/-- **One operation**: what it writes agrees, if it does not set an unnormalised time. -/
theorem result_agrees (h : call.result c objs = some u) (hlibc : call.Assumes c)
    (hcall : call.SetsNormalised c) : u.Agrees c := by
  cases call with
  | now i answer => exact UnixTime.ofTime_agrees h
  | ofTime i unixTime => exact UnixTime.ofTime_agrees h
  | ofStruct i tm =>
      obtain rfl := Option.some.inj h
      exact UnixTime.ofStruct_agrees hlibc
  | add i x y =>
      obtain ⟨x, -, h⟩ := Option.bind_eq_some_iff.mp h
      obtain ⟨y, -, h⟩ := Option.bind_eq_some_iff.mp h
      exact UnixTime.add_agrees h
  | sub i x y =>
      obtain ⟨x, -, h⟩ := Option.bind_eq_some_iff.mp h
      obtain ⟨y, -, h⟩ := Option.bind_eq_some_iff.mp h
      exact UnixTime.sub_agrees h
  | setUnixTime i unixTime =>
      obtain ⟨u, -, h⟩ := Option.bind_eq_some_iff.mp h
      exact UnixTime.setUnixTime_agrees h
  | setUnixTimeStruct i tm =>
      obtain ⟨u, -, rfl⟩ := Option.map_eq_some_iff.mp h
      exact (UnixTime.setUnixTimeStruct_agrees_iff hlibc).mpr hcall

/-- **An operation that sets an unnormalised time** writes an object whose two forms differ. -/
theorem setsNormalised_of_agrees (h : call.result c objs = some u) (hlibc : call.Assumes c)
    (hu : u.Agrees c) : call.SetsNormalised c := by
  cases call with
  | setUnixTimeStruct i tm =>
      obtain ⟨u, -, rfl⟩ := Option.map_eq_some_iff.mp h
      exact (UnixTime.setUnixTimeStruct_agrees_iff hlibc).mp hu
  | _ => trivial

variable [DecidableEq ι]

theorem AllAgree.step (h : AllAgree c objs) (hn : (unixTimes c).next objs call objs')
    (hlibc : call.Assumes c) (hcall : call.SetsNormalised c) : AllAgree c objs' := by
  obtain ⟨u, hu, rfl⟩ := hn
  refine allAgree_iff.mpr ?_
  refine (Function.forall_update_iff objs fun _ o => ∀ u, o = some u → u.Agrees c).mpr ⟨?_, ?_⟩
  · rintro u' heq
    obtain rfl := Option.some.inj heq
    exact result_agrees hu hlibc hcall
  · exact fun i _ => h.each i

/-- **When the two forms agree all along**: in every run, after every operation, exactly when each
broken-down time passed to `setUnixTimeStruct` was in its normal form. -/
theorem unixTimes_agree_iff (h₀ : (unixTimes c).init objs) (hr : (unixTimes c).Run objs calls objs')
    (hlibc : ∀ call ∈ calls, call.Assumes c) :
    (∀ before behind now, calls = before ++ behind → (unixTimes c).Run objs before now →
        AllAgree c now) ↔ ∀ call ∈ calls, call.SetsNormalised c := by
  have hstart : AllAgree c objs := by
    refine allAgree_iff.mpr fun i u hu => ?_
    rw [h₀ i] at hu
    cases hu
  -- the runs in which the library is as assumed
  have hassumed : ((unixTimes c).only fun _ call => call.Assumes c).Run objs calls objs' :=
    System.Run.only_iff.mpr ⟨hr, hlibc⟩
  have halways := System.Run.always_iff (C := fun _ call => call.SetsNormalised c)
    (P := AllAgree c) ?_ ?_ ?_ (fun objs h => h) hassumed hstart
  · rw [System.Run.only_iff] at halways
    constructor
    · intro hall
      refine (halways.mp fun before behind now heq hnow => ?_).2
      exact hall before behind now heq hnow.of_only
    · intro hall before behind now heq hnow
      refine halways.mpr ⟨hassumed, hall⟩ before behind now heq (System.Run.only_iff.mpr ⟨hnow, ?_⟩)
      intro call hcall
      exact hlibc call (heq ▸ List.mem_append_left behind hcall)
  · rintro objs call objs₁ objs₂ ⟨-, u, hu, rfl⟩ ⟨-, v, hv, rfl⟩
    rw [Option.some.inj (hu.symm.trans hv)]
  · exact fun objs call objs' h hn hcall => h.step hn.2 hn.1 hcall
  · rintro objs call objs' - ⟨hassumes, u, hu, rfl⟩ hagree
    exact setsNormalised_of_agrees hu hassumes (hagree.each call.target u (Function.update_self ..))

end Runs

/-! ### A C library: the time zone UTC -/

namespace Utc

/-- The days from 1970-01-01 to a date. Years begin in March here, so that the leap day is the last. -/
def daysFromCivil (year month day : Int) : Int :=
  let year := if month ≤ 2 then year - 1 else year
  let yearOfEra := year % 400
  let dayOfYear := (153 * ((month + 9) % 12) + 2) / 5 + day - 1
  year / 400 * 146097 + (yearOfEra * 365 + yearOfEra / 4 - yearOfEra / 100 + dayOfYear) - 719468

/-- The date (year, month, day) a number of days after 1970-01-01. -/
def civilFromDays (days : Int) : Int × Int × Int :=
  let era := (days + 719468) / 146097
  let dayOfEra := (days + 719468) % 146097
  let yearOfEra := (dayOfEra - dayOfEra / 1460 + dayOfEra / 36524 - dayOfEra / 146096) / 365
  let dayOfYear := dayOfEra - (365 * yearOfEra + yearOfEra / 4 - yearOfEra / 100)
  let month := (5 * dayOfYear + 2) / 153
  let day := dayOfYear - (153 * month + 2) / 5 + 1
  let year := yearOfEra + era * 400
  if month < 10 then (year, month + 3, day) else (year + 1, month - 9, day)

/-- Null for a year that is no `int`. -/
def localtime (unixTime : Int64) : Option Tm :=
  let days := unixTime.toInt / 86400
  let seconds := unixTime.toInt % 86400
  let (year, month, day) := civilFromDays days
  if -2 ^ 31 ≤ year - 1900 ∧ year - 1900 < 2 ^ 31 then
    some
      { tmSec := Int32.ofInt (seconds % 60)
        tmMin := Int32.ofInt (seconds / 60 % 60)
        tmHour := Int32.ofInt (seconds / 3600)
        tmMday := Int32.ofInt day
        tmMon := Int32.ofInt (month - 1)
        tmYear := Int32.ofInt (year - 1900)
        tmWday := Int32.ofInt ((days + 4) % 7)
        tmYday := Int32.ofInt (days - daysFromCivil year 1 1)
        tmIsdst := 0
        tmGmtoff := 0
        tmZone := str "UTC" }
  else none

/-- The instant of a broken-down time; `tm_wday` and `tm_yday` are not looked at. -/
def instant (tm : Tm) : Int64 :=
  let year := 1900 + tm.tmYear.toInt + tm.tmMon.toInt / 12
  let days := daysFromCivil year (tm.tmMon.toInt % 12 + 1) 1 + tm.tmMday.toInt - 1
  Int64.ofInt (((days * 24 + tm.tmHour.toInt) * 60 + tm.tmMin.toInt) * 60 + tm.tmSec.toInt)

/-- -1 where the time cannot be represented. -/
def mktime (tm : Tm) : Int64 × Tm :=
  match localtime (instant tm) with
  | some normalised => (instant tm, normalised)
  | none => (-1, tm)

/-- The last `width` digits. -/
def digits (width : ℕ) (n : Int) : List UInt8 :=
  (List.range width).reverse.map fun i => UInt8.ofNat (0x30 + n.toNat / 10 ^ i % 10)

def weekday (n : Int32) : List UInt8 :=
  [str "Sun", str "Mon", str "Tue", str "Wed", str "Thu", str "Fri", str "Sat"].getD n.toInt.toNat
    (str "?")

/-- A conversion of `timeFormat`, for fields of the usual width. -/
def conversion (tm : Tm) (specifier : UInt8) : List UInt8 :=
  if specifier = ch 'a' then weekday tm.tmWday
  else if specifier = ch 'Y' then digits 4 (1900 + tm.tmYear.toInt)
  else if specifier = ch 'm' then digits 2 (tm.tmMon.toInt + 1)
  else if specifier = ch 'd' then digits 2 tm.tmMday.toInt
  else if specifier = ch 'H' then digits 2 tm.tmHour.toInt
  else if specifier = ch 'M' then digits 2 tm.tmMin.toInt
  else if specifier = ch 'S' then digits 2 tm.tmSec.toInt
  else tm.tmZone

def formatted (tm : Tm) : List UInt8 → List UInt8
  | [] => []
  | [c] => [c]
  | c :: specifier :: rest =>
    if c = ch '%' then conversion tm specifier ++ formatted tm rest
    else c :: formatted tm (specifier :: rest)

end Utc

def utc : LibC where
  localtime := Utc.localtime
  mktime := Utc.mktime
  strftime size format tm := (Utc.formatted tm format).take (size - 1)

/-- Whatever can be represented is treated as documented. -/
theorem utc_normalises (tm : Tm) (h : Utc.localtime (Utc.instant tm) ≠ none) : utc.Normalises tm := by
  obtain ⟨normalised, hlocal⟩ := Option.ne_none_iff_exists'.mp h
  have hmade : Utc.mktime tm = (Utc.instant tm, normalised) := by
    unfold Utc.mktime
    generalize Utc.localtime (Utc.instant tm) = made at hlocal
    rw [hlocal]
  simp only [LibC.Normalises, utc, hmade, hlocal]

example : (Utc.localtime 951782399).map (Utc.formatted · UnixTime.timeFormat)
    = some (str "Mon 2000-02-28 23:59:59 UTC") := by decide +kernel

/-- One minute and fifteen seconds into 1970, written as 75 seconds. -/
def seventyFive : Tm := ⟨75, 0, 0, 1, 0, 70, 4, 0, 0, 0, str "UTC"⟩

/-- **A time that is not normalised**: the setter keeps the 75 seconds, and `unix_time_` is the instant
at 1 minute and 15. -/
theorem setUnixTimeStruct_unnormalised :
    ∃ objs, (unixTimes utc).init (fun _ : Unit => none) ∧
      (unixTimes utc).Run (fun _ : Unit => none) [.ofTime () 0, .setUnixTimeStruct () seventyFive] objs ∧
      utc.Normalises seventyFive ∧
      (objs ()).map (UnixTime.getStringTime utc) = some (str "Thu 1970-01-01 00:00:75 UTC") ∧
      (objs ()).bind (fun u => UnixTime.getStringFromUnixTime utc u.getUnixTime)
        = some (str "Thu 1970-01-01 00:01:15 UTC") ∧
      ¬ AllAgree utc objs := by
  refine ⟨_, fun _ => rfl, .cons ⟨⟨0, ⟨0, 0, 0, 1, 0, 70, 4, 0, 0, 0, str "UTC"⟩⟩, by decide +kernel, rfl⟩
    (.single ⟨⟨75, seventyFive⟩, by decide +kernel, rfl⟩), by decide +kernel, by decide +kernel,
    by decide +kernel, ?_⟩
  intro hall
  have hagrees := (hall.each () _ rfl).timeStruct
  revert hagrees
  decide +kernel

/-- The same instant in its normal form: constructed from the 75 seconds, and set as it should be. -/
theorem unixTimes_agree_iff_normalised :
    ∃ objs : Unit → Option UnixTime,
      objs () = some ⟨75, 15, 1, 0, 1, 0, 70, 4, 0, 0, 0, str "UTC"⟩ ∧ AllAgree utc objs := by
  let normal : Tm := ⟨15, 1, 0, 1, 0, 70, 4, 0, 0, 0, str "UTC"⟩
  have hrun : (unixTimes utc).Run (fun _ : Unit => none)
      [.ofStruct () seventyFive, .setUnixTimeStruct () normal] _ :=
    .cons ⟨⟨75, normal⟩, by decide +kernel, rfl⟩ (.single ⟨⟨75, normal⟩, by decide +kernel, rfl⟩)
  have hlibc : ∀ call ∈ [TimeCall.ofStruct () seventyFive, .setUnixTimeStruct () normal],
      call.Assumes utc := by
    refine List.forall_mem_cons.mpr ⟨?_, List.forall_mem_singleton.mpr ?_⟩
    · exact utc_normalises seventyFive (by decide +kernel)
    · exact utc_normalises normal (by decide +kernel)
  have hset : ∀ call ∈ [TimeCall.ofStruct () seventyFive, .setUnixTimeStruct () normal],
      call.SetsNormalised utc := by
    refine List.forall_mem_cons.mpr ⟨trivial, List.forall_mem_singleton.mpr ?_⟩
    show (utc.mktime normal).2 = normal
    decide +kernel
  have hall := (unixTimes_agree_iff (fun _ => rfl) hrun hlibc).mpr hset
  exact ⟨_, rfl, hall _ [] _ (List.append_nil _).symm hrun⟩

end Blueth.Time
