/-
# Loading price files

A price file is loaded as a whole or not at all. Each of its records has to tell an observation; then
the market is the one of all these observations, in whatever order the records stand. Otherwise the
first record that tells none decides the error, and what stands behind it does not matter.
-/
import Mathlib.Data.List.Perm.Basic
import TradingRules.Market.Feed
import TradingRules.Proofs.Csv.Record
import TradingRules.Proofs.Except
import TradingRules.Proofs.Market.Chronology

namespace TradingRules.PriceFile

open Csv (Record records rows IsWhole IsReordered)

variable {α ε : Type}

/-! ## What a record tells -/

/-- The field in a place is read as a value, without the blanks around it. -/
def Gives (fields : List String) (place : Nat) (read : List Char → Except ε α) (value : α) : Prop :=
  ∃ field, fields[place]? = some field ∧ read (Text.trim field.toList) = .ok value

/-- There is no field in a place, or one that cannot be read. -/
def Lacks (fields : List String) (place : Nat) (name : String) (read : List Char → Except ε α)
    (invalid : ε → Market.Error) (e : Market.Error) : Prop :=
  fields.length ≤ place ∧ e = .missingColumn name ∨
    ∃ field fault, fields[place]? = some field ∧ read (Text.trim field.toList) = .error fault ∧
      e = invalid fault

/-- Fields tell an observation: they are as many as those of the heading, and the first three give
date, price and volume. -/
structure Tells (width : Nat) (fields : List String) (o : Observation) : Prop where
  length_eq : fields.length = width
  date : Gives fields 0 Date.read o.date
  price : Gives fields 1 Decimal.read o.price
  volume : Gives fields 2 Decimal.read o.volume

/-- What is wrong with a record that tells no observation: its width, or else its date, or else its
price, or else its volume. -/
inductive IsFaulty (width : Nat) (r : Record) : Market.Error → Prop
  | width (hwidth : r.fields.length ≠ width) :
      IsFaulty width r (.unequalWidth ⟨r.start, r.fields.length, width⟩)
  | date {e : Market.Error} (hwidth : r.fields.length = width)
      (hdate : Lacks r.fields 0 "date" Date.read .invalidDate e) : IsFaulty width r e
  | price {e : Market.Error} {date : Date} (hwidth : r.fields.length = width)
      (hdate : Gives r.fields 0 Date.read date)
      (hprice : Lacks r.fields 1 "price" Decimal.read (.invalidNumber "price") e) :
      IsFaulty width r e
  | volume {e : Market.Error} {date : Date} {price : Float} (hwidth : r.fields.length = width)
      (hdate : Gives r.fields 0 Date.read date) (hprice : Gives r.fields 1 Decimal.read price)
      (hvolume : Lacks r.fields 2 "volume" Decimal.read (.invalidNumber "volume") e) :
      IsFaulty width r e

/-! ## Reading a record -/

theorem column_eq_ok_iff {r : Record} {place : Nat} {name : String} {text : List Char} :
    r.column place name = .ok text ↔
      ∃ field, r.fields[place]? = some field ∧ text = Text.trim field.toList := by
  unfold Csv.Record.column
  cases r.fields[place]? with
  | none => exact iff_of_false nofun fun ⟨_, h, _⟩ => nomatch h
  | some field =>
    constructor
    · intro h
      cases h
      exact ⟨field, rfl, rfl⟩
    · rintro ⟨_, ⟨⟩, rfl⟩
      rfl

theorem column_eq_error_iff {r : Record} {place : Nat} {name : String} {e : Market.Error} :
    r.column place name = .error e ↔ r.fields.length ≤ place ∧ e = .missingColumn name := by
  unfold Csv.Record.column
  rw [← List.getElem?_eq_none_iff]
  cases r.fields[place]? with
  | none =>
    constructor
    · intro h
      cases h
      exact ⟨rfl, rfl⟩
    · rintro ⟨-, rfl⟩
      rfl
  | some field => exact iff_of_false nofun fun ⟨h, _⟩ => nomatch h

section

variable {r : Record} {place : Nat} {name : String} {read : List Char → Except ε α}
  {invalid : ε → Market.Error}

theorem readColumn_eq_ok_iff {value : α} :
    (r.column place name >>= fun text => (read text).mapError invalid) = .ok value ↔
      Gives r.fields place read value := by
  rw [bind_eq_ok_iff]
  simp only [column_eq_ok_iff, mapError_eq_ok_iff]
  constructor
  · rintro ⟨_, ⟨field, hfield, rfl⟩, hread⟩
    exact ⟨field, hfield, hread⟩
  · rintro ⟨field, hfield, hread⟩
    exact ⟨_, ⟨field, hfield, rfl⟩, hread⟩

theorem readColumn_eq_error_iff {e : Market.Error} :
    (r.column place name >>= fun text => (read text).mapError invalid) = .error e ↔
      Lacks r.fields place name read invalid e := by
  rw [bind_eq_error_iff]
  simp only [column_eq_ok_iff, column_eq_error_iff, mapError_eq_error_iff]
  refine or_congr_right ?_
  constructor
  · rintro ⟨_, ⟨field, hfield, rfl⟩, fault, hread, he⟩
    exact ⟨field, fault, hfield, hread, he⟩
  · rintro ⟨field, fault, hfield, hread, he⟩
    exact ⟨_, ⟨field, hfield, rfl⟩, fault, hread, he⟩

end

/-- Reads a record that should have the given number of fields. -/
def readRecord (width : Nat) (r : Record) : Except Market.Error Observation := do
  (r.checkWidth width).mapError .unequalWidth
  Observation.ofRecord r

theorem readRecord_of_eq {width : Nat} {r : Record} (h : r.fields.length = width) :
    readRecord width r = Observation.ofRecord r := by
  rw [readRecord, Csv.Record.checkWidth, if_pos h]
  rfl

theorem readRecord_of_ne {width : Nat} {r : Record} (h : r.fields.length ≠ width) :
    readRecord width r = .error (.unequalWidth ⟨r.start, r.fields.length, width⟩) := by
  rw [readRecord, Csv.Record.checkWidth, if_neg h]
  rfl

theorem readRecord_eq_ok_iff {width : Nat} {r : Record} {o : Observation} :
    readRecord width r = .ok o ↔ Tells width r.fields o := by
  by_cases hwidth : r.fields.length = width
  · rw [readRecord_of_eq hwidth, Observation.ofRecord]
    constructor
    · intro h
      obtain ⟨date, hdate, h⟩ := bind_eq_ok_iff.mp h
      obtain ⟨price, hprice, h⟩ := bind_eq_ok_iff.mp h
      obtain ⟨volume, hvolume, h⟩ := bind_eq_ok_iff.mp h
      cases h
      exact ⟨hwidth, readColumn_eq_ok_iff.mp hdate, readColumn_eq_ok_iff.mp hprice,
        readColumn_eq_ok_iff.mp hvolume⟩
    · rintro ⟨-, hdate, hprice, hvolume⟩
      refine bind_eq_ok_iff.mpr ⟨_, readColumn_eq_ok_iff.mpr hdate, ?_⟩
      refine bind_eq_ok_iff.mpr ⟨_, readColumn_eq_ok_iff.mpr hprice, ?_⟩
      exact bind_eq_ok_iff.mpr ⟨_, readColumn_eq_ok_iff.mpr hvolume, rfl⟩
  · rw [readRecord_of_ne hwidth]
    exact iff_of_false nofun fun h => hwidth h.length_eq

theorem readRecord_eq_error_iff {width : Nat} {r : Record} {e : Market.Error} :
    readRecord width r = .error e ↔ IsFaulty width r e := by
  by_cases hwidth : r.fields.length = width
  · rw [readRecord_of_eq hwidth, Observation.ofRecord]
    constructor
    · intro h
      rcases bind_eq_error_iff.mp h with h | ⟨date, hdate, h⟩
      · exact .date hwidth (readColumn_eq_error_iff.mp h)
      have hdate := readColumn_eq_ok_iff.mp hdate
      rcases bind_eq_error_iff.mp h with h | ⟨price, hprice, h⟩
      · exact .price hwidth hdate (readColumn_eq_error_iff.mp h)
      have hprice := readColumn_eq_ok_iff.mp hprice
      rcases bind_eq_error_iff.mp h with h | ⟨volume, -, h⟩
      · exact .volume hwidth hdate hprice (readColumn_eq_error_iff.mp h)
      · cases h
    · intro h
      cases h with
      | width hne => exact absurd hwidth hne
      | date _ hdate => exact bind_eq_error_iff.mpr (Or.inl (readColumn_eq_error_iff.mpr hdate))
      | price _ hdate hprice =>
        refine bind_eq_error_iff.mpr (Or.inr ⟨_, readColumn_eq_ok_iff.mpr hdate, ?_⟩)
        exact bind_eq_error_iff.mpr (Or.inl (readColumn_eq_error_iff.mpr hprice))
      | volume _ hdate hprice hvolume =>
        refine bind_eq_error_iff.mpr (Or.inr ⟨_, readColumn_eq_ok_iff.mpr hdate, ?_⟩)
        refine bind_eq_error_iff.mpr (Or.inr ⟨_, readColumn_eq_ok_iff.mpr hprice, ?_⟩)
        exact bind_eq_error_iff.mpr (Or.inl (readColumn_eq_error_iff.mpr hvolume))
  · rw [readRecord_of_ne hwidth]
    constructor
    · intro h
      cases h
      exact .width hwidth
    · intro h
      cases h with
      | width _ => rfl
      | date heq _ => exact absurd heq hwidth
      | price heq _ _ => exact absurd heq hwidth
      | volume heq _ _ _ => exact absurd heq hwidth

/-! ## Reading record after record -/

theorem ofRecords_cons (width : Nat) (r : Record) (rest : List Record) :
    Observation.ofRecords width (r :: rest) = (do
      let o ← readRecord width r
      return o :: (← Observation.ofRecords width rest)) := by
  rw [Observation.ofRecords, readRecord, bind_assoc]

/-- Records are read exactly if each of them tells an observation. -/
theorem ofRecords_eq_ok_iff {width : Nat} {all : List Record} {observations : List Observation} :
    Observation.ofRecords width all = .ok observations ↔
      List.Forall₂ (Tells width) (all.map (·.fields)) observations := by
  induction all generalizing observations with
  | nil =>
    rw [Observation.ofRecords, List.map_nil, List.forall₂_nil_left_iff]
    constructor
    · rintro ⟨⟩
      rfl
    · rintro rfl
      rfl
  | cons r rest ih =>
    rw [ofRecords_cons, List.map_cons, List.forall₂_cons_left_iff]
    constructor
    · intro h
      obtain ⟨o, ho, h⟩ := bind_eq_ok_iff.mp h
      obtain ⟨more, hmore, h⟩ := bind_eq_ok_iff.mp h
      cases h
      exact ⟨o, more, readRecord_eq_ok_iff.mp ho, ih.mp hmore, rfl⟩
    · rintro ⟨o, more, ho, hmore, rfl⟩
      refine bind_eq_ok_iff.mpr ⟨o, readRecord_eq_ok_iff.mpr ho, ?_⟩
      exact bind_eq_ok_iff.mpr ⟨more, ih.mpr hmore, rfl⟩

/-- Reading stops at the first record that tells no observation. -/
theorem ofRecords_eq_error_iff {width : Nat} {all : List Record} {e : Market.Error} :
    Observation.ofRecords width all = .error e ↔
      ∃ before bad after, all = before ++ bad :: after ∧
        (∀ r ∈ before, ∃ o, Tells width r.fields o) ∧ IsFaulty width bad e := by
  induction all with
  | nil =>
    refine iff_of_false nofun ?_
    rintro ⟨before, bad, after, h, -⟩
    exact List.append_ne_nil_of_right_ne_nil before (List.cons_ne_nil bad after) h.symm
  | cons r rest ih =>
    rw [ofRecords_cons]
    constructor
    · intro h
      rcases bind_eq_error_iff.mp h with h | ⟨o, ho, h⟩
      · exact ⟨[], r, rest, rfl, nofun, readRecord_eq_error_iff.mp h⟩
      rcases bind_eq_error_iff.mp h with h | ⟨_, -, h⟩
      · obtain ⟨before, bad, after, rfl, hbefore, hbad⟩ := ih.mp h
        refine ⟨r :: before, bad, after, rfl, ?_, hbad⟩
        exact List.forall_mem_cons.mpr ⟨⟨o, readRecord_eq_ok_iff.mp ho⟩, hbefore⟩
      · cases h
    · rintro ⟨before, bad, after, hall, hbefore, hbad⟩
      rcases List.append_eq_cons_iff.mp hall.symm with ⟨rfl, hcons⟩ | ⟨before', rfl, hrest⟩
      · cases hcons
        exact bind_eq_error_iff.mpr (Or.inl (readRecord_eq_error_iff.mpr hbad))
      · obtain ⟨⟨o, ho⟩, hbefore'⟩ := List.forall_mem_cons.mp hbefore
        refine bind_eq_error_iff.mpr (Or.inr ⟨o, readRecord_eq_ok_iff.mpr ho, ?_⟩)
        refine bind_eq_error_iff.mpr (Or.inl (ih.mpr ?_))
        exact ⟨before', bad, after, hrest, hbefore', hbad⟩

/-! ## Files -/

/-- A file holds observations: each of its rows behind the heading tells one. -/
def Holds (text : String) (observations : List Observation) : Prop :=
  rows text.toList = [] ∧ observations = [] ∨
    ∃ heading data, rows text.toList = heading :: data ∧
      List.Forall₂ (Tells heading.length) data observations

/-- A file is refused: in front of a record that is faulty every one behind the heading tells an
observation. -/
def IsRefused (text : String) (e : Market.Error) : Prop :=
  ∃ heading before bad after, records text.toList = heading :: (before ++ bad :: after) ∧
    (∀ r ∈ before, ∃ o, Tells heading.fields.length r.fields o) ∧
    IsFaulty heading.fields.length bad e

theorem ofPriceFile_of_nil {text : String} (h : records text.toList = []) :
    Market.ofPriceFile text = .ok (.ofObservations []) := by
  rw [Market.ofPriceFile, h, Market.ofObservations_nil]

theorem ofPriceFile_of_cons {text : String} {heading : Record} {data : List Record}
    (h : records text.toList = heading :: data) :
    Market.ofPriceFile text = (do
      return .ofObservations (← Observation.ofRecords heading.fields.length data)) := by
  rw [Market.ofPriceFile, h]

/-- A file is loaded exactly if it holds observations, and then their market is the one of the file. -/
theorem ofPriceFile_eq_ok_iff {text : String} {m : Market} :
    Market.ofPriceFile text = .ok m ↔
      ∃ observations, Holds text observations ∧ m = .ofObservations observations := by
  unfold Holds rows
  cases hrecords : records text.toList with
  | nil =>
    rw [ofPriceFile_of_nil hrecords]
    constructor
    · rintro ⟨⟩
      exact ⟨[], Or.inl ⟨rfl, rfl⟩, rfl⟩
    · rintro ⟨_, ⟨-, rfl⟩ | ⟨_, _, h, -⟩, rfl⟩
      · rfl
      · cases h
  | cons heading data =>
    rw [ofPriceFile_of_cons hrecords]
    constructor
    · intro h
      obtain ⟨observations, hread, h⟩ := bind_eq_ok_iff.mp h
      cases h
      exact ⟨observations, Or.inr ⟨_, _, rfl, ofRecords_eq_ok_iff.mp hread⟩, rfl⟩
    · rintro ⟨observations, ⟨h, -⟩ | ⟨_, _, h, htells⟩, rfl⟩
      · cases h
      · cases h
        exact bind_eq_ok_iff.mpr ⟨observations, ofRecords_eq_ok_iff.mpr htells, rfl⟩

/-- A file fails exactly if it is refused. -/
theorem ofPriceFile_eq_error_iff {text : String} {e : Market.Error} :
    Market.ofPriceFile text = .error e ↔ IsRefused text e := by
  unfold IsRefused
  cases hrecords : records text.toList with
  | nil =>
    rw [ofPriceFile_of_nil hrecords]
    exact iff_of_false nofun fun ⟨_, _, _, _, h, _⟩ => nomatch h
  | cons heading data =>
    rw [ofPriceFile_of_cons hrecords]
    constructor
    · intro h
      rcases bind_eq_error_iff.mp h with h | ⟨_, -, h⟩
      · obtain ⟨before, bad, after, rfl, hbefore, hbad⟩ := ofRecords_eq_error_iff.mp h
        exact ⟨heading, before, bad, after, rfl, hbefore, hbad⟩
      · cases h
    · rintro ⟨_, before, bad, after, ⟨⟩, hbefore, hbad⟩
      refine bind_eq_error_iff.mpr (Or.inl (ofRecords_eq_error_iff.mpr ?_))
      exact ⟨before, bad, after, rfl, hbefore, hbad⟩

/-- What is put behind a whole text does not change why it is refused. -/
theorem IsRefused.append {front : String} {e : Market.Error} (h : IsRefused front e)
    (hfront : IsWhole front.toList) (back : String) : IsRefused (front ++ back) e := by
  obtain ⟨heading, before, bad, after, hrecords, hbefore, hbad⟩ := h
  obtain ⟨more, hmore⟩ := Csv.records_prefix_append hfront back.toList
  refine ⟨heading, before, bad, after ++ more, ?_, hbefore, hbad⟩
  rw [String.toList_append, ← hmore, hrecords, List.cons_append, List.append_assoc,
    List.cons_append]

/-- With at most one observation for each day, rows in another order make the same market. -/
theorem ofPriceFile_eq_of_perm {text text' : String} {heading heading' : List String}
    {data data' : List (List String)} {observations : List Observation}
    (hrows : rows text.toList = heading :: data) (hrows' : rows text'.toList = heading' :: data')
    (hwidth : heading'.length = heading.length) (hperm : data'.Perm data)
    (hholds : Holds text observations)
    (hdistinct : observations.Pairwise fun o o' => o.date ≠ o'.date) :
    Market.ofPriceFile text' = Market.ofPriceFile text := by
  have htells : List.Forall₂ (Tells heading.length) data observations := by
    rcases hholds with ⟨h, -⟩ | ⟨_, _, h, htells⟩
    · rw [hrows] at h
      cases h
    · rw [hrows] at h
      cases h
      exact htells
  obtain ⟨observations', htells', hperm'⟩ := List.perm_comp_forall₂ hperm htells
  have hholds' : Holds text' observations' := Or.inr ⟨heading', data', hrows', hwidth ▸ htells'⟩
  rw [ofPriceFile_eq_ok_iff.mpr ⟨_, hholds, rfl⟩]
  refine ofPriceFile_eq_ok_iff.mpr ⟨_, hholds', ?_⟩
  exact (Market.ofObservations_eq_of_ofDay_eq (Market.ofDay_eq_of_perm hperm' hdistinct)).symm

/-- **Loading a price file.** The feed of a directory reads the file of a symbol as a price file, unless
it cannot be read as a text at all. That succeeds exactly if every row behind the heading has the width
of the heading and begins with a date, a price and a volume, and gives the market of just these
observations. Otherwise the error is that of
the first faulty record, and in it that of the width before the date before the price before the
volume; no record behind it matters, nor any text behind the end of a record. With at most one
observation for each day rows can stand in any order, be it that a text is put together from the same
pieces or that it has the same rows in another way. -/
theorem loading_exact :
    (∀ (files : FileSystem) (directory symbol path : String),
      path = joinPath directory (Feed.fileName symbol) →
        (∀ text, files.read path = .ok text →
          (Feed.ofDirectory files directory).market symbol = Market.ofPriceFile text) ∧
        ∀ fault, files.read path = .error fault →
          (Feed.ofDirectory files directory).market symbol = .error (.unreadableFile path fault)) ∧
    (∀ text m, Market.ofPriceFile text = .ok m ↔
      ∃ observations, Holds text observations ∧ m = .ofObservations observations) ∧
    (∀ text e, Market.ofPriceFile text = .error e ↔ IsRefused text e) ∧
    (∀ front back e, IsWhole front.toList → Market.ofPriceFile front = .error e →
      Market.ofPriceFile (front ++ back) = .error e) ∧
    (∀ text text' heading heading' data data' observations,
      rows text.toList = heading :: data → rows text'.toList = heading' :: data' →
      heading'.length = heading.length → data'.Perm data → Holds text observations →
      observations.Pairwise (fun o o' => o.date ≠ o'.date) →
        Market.ofPriceFile text' = Market.ofPriceFile text) ∧
    ∀ text text' observations, IsReordered text.toList text'.toList → Holds text observations →
      observations.Pairwise (fun o o' => o.date ≠ o'.date) →
        Market.ofPriceFile text' = Market.ofPriceFile text := by
  refine ⟨?_, fun _ _ => ofPriceFile_eq_ok_iff, fun _ _ => ofPriceFile_eq_error_iff, ?_, ?_, ?_⟩
  · rintro files directory symbol path rfl
    unfold Feed.ofDirectory
    constructor
    · intro text hread
      simp only [hread]
    · intro fault hread
      simp only [hread]
  · intro front back e hfront h
    exact ofPriceFile_eq_error_iff.mpr ((ofPriceFile_eq_error_iff.mp h).append hfront back)
  · intro text text' heading heading' data data' observations hrows hrows' hwidth hperm
    exact ofPriceFile_eq_of_perm hrows hrows' hwidth hperm
  · intro text text' observations hreordered
    obtain ⟨heading, data, data', hrows, hrows', hperm⟩ := hreordered.exists_perm
    exact ofPriceFile_eq_of_perm hrows hrows' rfl hperm

/-- A price file with two rows, whose last line end is missing. -/
def newestFirst : String := "date,price,volume\n2024-01-17,115.0,55000\n2024-01-15,105.0,50000"

/-- The same lines with the older day in front. -/
def oldestFirst : String := "date,price,volume\n2024-01-15,105.0,50000\n2024-01-17,115.0,55000\n"

/-- The same rows under another heading, with other line ends and with a quoted field. -/
def otherwiseWritten : String := "D,P,V\r\n\"2024-01-15\",105.0,50000\r\n2024-01-17,115.0,55000\r\n"

/-- A price file whose first row has no price. -/
def withoutPrice : String := "date,price,volume\n2024-01-17,n/a,55000\n"

/-- The rows of the file under its heading. -/
def newestFirstRows : List (List String) :=
  [["2024-01-17", "115.0", "55000"], ["2024-01-15", "105.0", "50000"]]

theorem rows_newestFirst :
    rows newestFirst.toList = ["date", "price", "volume"] :: newestFirstRows := by
  decide +kernel

/-- The observations of the file. -/
def newestFirstObservations : List Observation :=
  [⟨⟨2024, 1, 17, rfl⟩, 115.0, 55000.0⟩, ⟨⟨2024, 1, 15, rfl⟩, 105.0, 50000.0⟩]

theorem holds_newestFirst : Holds newestFirst newestFirstObservations := by
  refine Or.inr ⟨_, _, rows_newestFirst, .cons ?_ (.cons ?_ .nil)⟩
  · exact ⟨rfl, ⟨"2024-01-17", rfl, eq_ok_of_toOption (by decide +kernel)⟩,
      ⟨"115.0", rfl, eq_ok_of_toOption (by decide +kernel)⟩,
      ⟨"55000", rfl, eq_ok_of_toOption (by decide +kernel)⟩⟩
  · exact ⟨rfl, ⟨"2024-01-15", rfl, eq_ok_of_toOption (by decide +kernel)⟩,
      ⟨"105.0", rfl, eq_ok_of_toOption (by decide +kernel)⟩,
      ⟨"50000", rfl, eq_ok_of_toOption (by decide +kernel)⟩⟩

theorem isReordered_newestFirst : IsReordered newestFirst.toList oldestFirst.toList := by
  refine ⟨"date,price,volume\n".toList,
    ["2024-01-17,115.0,55000\n".toList, "2024-01-15,105.0,50000\n".toList],
    ["2024-01-15,105.0,50000\n".toList, "2024-01-17,115.0,55000\n".toList], ?_, ?_, ?_, ?_, ?_, ?_⟩
  · decide +kernel
  · decide +kernel
  · decide +kernel
  · exact .swap _ _ _
  · exact Or.inr (by decide +kernel)
  · exact Or.inl (by decide +kernel)

theorem isRefused_withoutPrice : IsRefused withoutPrice (.invalidNumber "price" .invalid) := by
  have hrecords : records withoutPrice.toList =
      ⟨⟨0, 1, 0⟩, ["date", "price", "volume"]⟩ ::
        ([] ++ ⟨⟨1, 2, 18⟩, ["2024-01-17", "n/a", "55000"]⟩ :: []) := by
    decide +kernel
  refine ⟨_, _, _, _, hrecords, nofun, .price rfl ⟨"2024-01-17", rfl,
    eq_ok_of_toOption (show _ = some (⟨2024, 1, 17, rfl⟩ : Date) by decide +kernel)⟩ ?_⟩
  exact Or.inr ⟨"n/a", .invalid, rfl, rfl, rfl⟩

/-- Files whose rows stand in another order, by their lines and written in another way, a file that is
refused with more behind it, and the file of a symbol in a directory, once a text and once none. -/
theorem loading_of_samples :
    Market.ofPriceFile oldestFirst = Market.ofPriceFile newestFirst ∧
      Market.ofPriceFile otherwiseWritten = Market.ofPriceFile newestFirst ∧
      Market.ofPriceFile (withoutPrice ++ "2024-01-18\n") =
        .error (.invalidNumber "price" .invalid) ∧
      (Feed.ofDirectory (.ofFindings [("data/SOL.csv", .ok newestFirst)] []) "data").market "SOL" =
        Market.ofPriceFile newestFirst ∧
      (Feed.ofDirectory (.ofFindings [("data/SOL.csv", .error .notText)] []) "data").market "SOL" =
        .error (.unreadableFile "data/SOL.csv" .notText) := by
  obtain ⟨hfeed, -, hrefused, hbehind, hrows, hpieces⟩ := loading_exact
  have hdistinct : newestFirstObservations.Pairwise fun o o' => o.date ≠ o'.date := by decide
  have hpath : "data/SOL.csv" = joinPath "data" (Feed.fileName "SOL") := by decide +kernel
  refine ⟨?_, ?_, ?_, ?_, ?_⟩
  · exact hpieces _ _ _ isReordered_newestFirst holds_newestFirst hdistinct
  · have hrows' : rows otherwiseWritten.toList = ["D", "P", "V"] :: newestFirstRows.reverse := by
      decide +kernel
    exact hrows _ _ _ _ _ _ _ rows_newestFirst hrows' rfl (List.reverse_perm _) holds_newestFirst
      hdistinct
  · exact hbehind _ _ _ (by decide +kernel) ((hrefused _ _).mpr isRefused_withoutPrice)
  · exact (hfeed _ _ _ _ hpath).1 _ (eq_ok_of_toOption (by decide +kernel))
  · exact (hfeed _ _ _ _ hpath).2 _ rfl

end TradingRules.PriceFile
