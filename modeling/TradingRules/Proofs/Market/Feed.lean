/-
# What a directory gives away

A symbol is looked up among the names of the entries of a directory before any path is formed. So the
only file that a symbol can lead to is an entry of the directory itself, whatever slashes and dots are
in the symbol, and nothing else that a file system holds can be seen in the outcome.
-/
import Mathlib.Data.String.Basic
import TradingRules.Files.Tree
import TradingRules.Market.Feed
import TradingRules.Proofs.Except
import TradingRules.Proofs.Text.Search

namespace TradingRules

/-! ## Paths of entries -/

namespace FileTree

/-- The steps that a path describes, without names that stay where they are. -/
def steps (path : String) : List String :=
  (names path).filter fun name => !isIdle name

theorem names_append (front back : String) :
    names (front ++ "/" ++ back) = names front ++ names back := by
  unfold names
  have hsplit : (front ++ "/" ++ back).toList = front.toList ++ '/' :: back.toList := by
    rw [String.toList_append, String.toList_append, List.append_assoc]
    rfl
  rw [hsplit, Text.splitOn_append_cons, List.map_append]

theorem names_of_notMem {name : String} (h : '/' ∉ name.toList) : names name = [name] := by
  rw [names, Text.splitOn_of_notMem h, List.map_singleton, String.ofList_toList]

end FileTree

theorem joinPath_of_notMem (directory : String) {name : String} (h : '/' ∉ name.toList) :
    joinPath directory name = directory ++ "/" ++ name ∨
      joinPath directory name = directory ++ name ∧
        (directory = "" ∨ ∃ front, directory = front ++ "/") := by
  have hrelative : name.startsWith "/" = false := by
    rw [String.startsWith_string_eq_false_iff]
    exact fun hslash => h (hslash.subset List.mem_cons_self)
  unfold joinPath
  rw [hrelative, if_neg Bool.false_ne_true]
  split_ifs with hend
  · refine Or.inr ⟨rfl, hend.imp String.isEmpty_iff.mp fun hslash => ?_⟩
    rw [String.endsWith_eq_endsWith_toSlice, String.Slice.endsWith_string_iff,
      String.copy_toSlice] at hslash
    obtain ⟨front, hfront⟩ := hslash
    refine ⟨String.ofList front, String.toList_inj.mp ?_⟩
    rw [← hfront, String.toList_append, String.toList_ofList (l := front)]
  · exact Or.inl rfl

/-- The path of an entry goes on from that of its directory. -/
theorem prefix_joinPath {directory name : String} (h : '/' ∉ name.toList) :
    directory.toList <+: (joinPath directory name).toList := by
  rcases joinPath_of_notMem directory h with hjoin | ⟨hjoin, -⟩
  · rw [hjoin, String.toList_append, String.toList_append, List.append_assoc]
    exact List.prefix_append _ _
  · rw [hjoin, String.toList_append]
    exact List.prefix_append _ _

/-- The name of an entry leads one step on from its directory. -/
theorem FileTree.steps_joinPath {directory name : String} (hslash : '/' ∉ name.toList)
    (hidle : isIdle name = false) : steps (joinPath directory name) = steps directory ++ [name] := by
  have hname : [name].filter (fun name => !isIdle name) = [name] :=
    List.filter_eq_self.mpr fun n hn => by rw [List.mem_singleton.mp hn, hidle]; rfl
  have hempty : [""].filter (fun name => !isIdle name) = [] := by decide
  unfold steps
  rcases joinPath_of_notMem directory hslash with hjoin | ⟨hjoin, rfl | ⟨front, rfl⟩⟩
  · rw [hjoin, names_append, names_of_notMem hslash, List.filter_append, hname]
  · rw [hjoin, String.empty_append, names_of_notMem hslash, hname]
    rfl
  · have hfront : names (front ++ "/") = names front ++ [""] := by
      have hnil : names "" = [""] := by decide +kernel
      rw [← hnil, ← names_append, String.append_empty]
    rw [hjoin, names_append, names_of_notMem hslash, hfront, List.filter_append, List.filter_append,
      hname, hempty, List.append_nil]

namespace Feed

/-! ## Symbols and entries -/

theorem toList_fileName (symbol : String) : (fileName symbol).toList = symbol.toList ++ extension := by
  rw [fileName, String.toList_append, String.toList_ofList]

/-- A symbol belongs to the entry that is named after it, and to no other one. -/
theorem symbolOf_eq_some_iff {name symbol : String} :
    symbolOf name = some symbol ↔ name = fileName symbol := by
  unfold symbolOf
  rw [← String.toList_inj, toList_fileName]
  constructor
  · intro h
    split_ifs at h with hsuffix
    obtain ⟨front, hfront⟩ := List.isSuffixOf_iff_suffix.mp hsuffix
    cases h
    rw [String.toList_ofList, ← hfront, List.length_append, Nat.add_sub_cancel, List.take_left]
  · intro h
    rw [h, if_pos (List.isSuffixOf_iff_suffix.mpr (List.suffix_append _ _)), List.length_append,
      Nat.add_sub_cancel, List.take_left, String.ofList_toList]

theorem symbolOf_eq_none_iff {name : String} :
    symbolOf name = none ↔ extension.isSuffixOf name.toList = false := by
  unfold symbolOf
  split_ifs with h
  · simp [h]
  · simp [h]

/-- The name of a price file is longer than the names that lead nowhere or back. -/
theorem four_le_length_fileName (symbol : String) : 4 ≤ (fileName symbol).toList.length := by
  rw [toList_fileName, List.length_append]
  exact Nat.le_add_left 4 _

theorem isIdle_fileName (symbol : String) : FileTree.isIdle (fileName symbol) = false := by
  have hlength := four_le_length_fileName symbol
  rw [FileTree.isIdle, Bool.or_eq_false_iff, decide_eq_false_iff_not, decide_eq_false_iff_not]
  constructor
  · intro h
    rw [h] at hlength
    exact absurd hlength (by decide)
  · intro h
    rw [h] at hlength
    exact absurd hlength (by decide)

theorem fileName_ne_parent (symbol : String) : fileName symbol ≠ ".." := by
  intro h
  have hlength := four_le_length_fileName symbol
  rw [h] at hlength
  exact absurd hlength (by decide)

/-- The symbols are listed with one entry for each. -/
theorem mem_symbolsAmong {names : List String} {symbol : String} :
    symbol ∈ symbolsAmong names ↔ fileName symbol ∈ names := by
  rw [symbolsAmong, List.mem_mergeSort, List.mem_filterMap]
  simp only [symbolOf_eq_some_iff]
  exact exists_eq_right

theorem map_fileName_filterMap (names : List String) :
    (names.filterMap symbolOf).map fileName =
      names.filter fun name => extension.isSuffixOf name.toList := by
  induction names with
  | nil => rfl
  | cons name rest ih =>
    cases hsymbol : symbolOf name with
    | none =>
      rw [List.filterMap_cons_none hsymbol, ih, List.filter_cons_of_neg]
      rw [symbolOf_eq_none_iff.mp hsymbol]
      exact Bool.false_ne_true
    | some symbol =>
      have hname : name = fileName symbol := symbolOf_eq_some_iff.mp hsymbol
      rw [List.filterMap_cons_some hsymbol, List.map_cons, ih, List.filter_cons_of_pos, ← hname]
      rw [hname, toList_fileName]
      exact List.isSuffixOf_iff_suffix.mpr (List.suffix_append _ _)

theorem pairwise_symbolsAmong (names : List String) :
    (symbolsAmong names).Pairwise (· ≤ ·) := by
  have htrans (a b c : String) : decide (a ≤ b) = true → decide (b ≤ c) = true →
      decide (a ≤ c) = true := by
    rw [decide_eq_true_eq, decide_eq_true_eq, decide_eq_true_eq]
    exact le_trans
  have htotal (a b : String) : (decide (a ≤ b) || decide (b ≤ a)) = true := by
    rw [Bool.or_eq_true, decide_eq_true_eq, decide_eq_true_eq]
    exact le_total a b
  exact (List.pairwise_mergeSort htrans htotal _).imp of_decide_eq_true

/-- Each entry that ends like a price file has its symbol in the list, once. -/
theorem map_fileName_symbolsAmong_perm (names : List String) :
    ((symbolsAmong names).map fileName).Perm
      (names.filter fun name => extension.isSuffixOf name.toList) := by
  rw [← map_fileName_filterMap]
  exact (List.mergeSort_perm _ _).map fileName

/-- The order in which a directory lists its entries does not matter. -/
theorem symbolsAmong_eq_of_perm {names names' : List String} (h : names'.Perm names) :
    symbolsAmong names' = symbolsAmong names := by
  have hperm : (symbolsAmong names').Perm (symbolsAmong names) :=
    (List.mergeSort_perm _ _).trans ((h.filterMap symbolOf).trans (List.mergeSort_perm _ _).symm)
  refine hperm.eq_of_pairwise ?_ (pairwise_symbolsAmong names') (pairwise_symbolsAmong names)
  exact fun a b _ _ => le_antisymm

/-! ## Looking a symbol up -/

section

variable {files files' : FileSystem} {directory symbol : String} {names names' : List String}

theorem fetch_of_mem (hlist : files.entries directory = .ok names) (hmem : fileName symbol ∈ names) :
    (ofDirectory files directory).fetch symbol = (ofDirectory files directory).market symbol := by
  have hsymbols : (ofDirectory files directory).symbols = .ok (symbolsAmong names) := by
    simp only [ofDirectory, hlist]
  rw [fetch, hsymbols]
  exact if_pos (mem_symbolsAmong.mpr hmem)

theorem fetch_of_notMem (hlist : files.entries directory = .ok names)
    (hnot : fileName symbol ∉ names) : (ofDirectory files directory).fetch symbol =
      .error (.unknownSymbol symbol (symbolsAmong names)) := by
  have hsymbols : (ofDirectory files directory).symbols = .ok (symbolsAmong names) := by
    simp only [ofDirectory, hlist]
  rw [fetch, hsymbols]
  exact if_neg fun hmem => hnot (mem_symbolsAmong.mp hmem)

/-- The market of a symbol is the one of its file. -/
theorem market_ofDirectory (files : FileSystem) (directory symbol : String) :
    (ofDirectory files directory).market symbol =
      match files.read (joinPath directory (fileName symbol)) with
      | .ok text => Market.ofPriceFile text
      | .error e => .error (.unreadableFile (joinPath directory (fileName symbol)) e) :=
  rfl

/-- The outcome depends on the names of the entries, in any order, and on the entry of the symbol. -/
theorem fetch_congr (hlist : files.entries directory = .ok names)
    (hlist' : files'.entries directory = .ok names') (hperm : names'.Perm names)
    (hread : fileName symbol ∈ names → files'.read (joinPath directory (fileName symbol)) =
      files.read (joinPath directory (fileName symbol))) :
    (ofDirectory files' directory).fetch symbol = (ofDirectory files directory).fetch symbol := by
  by_cases hmem : fileName symbol ∈ names
  · rw [fetch_of_mem hlist hmem, fetch_of_mem hlist' (hperm.mem_iff.mpr hmem), market_ofDirectory,
      market_ofDirectory, hread hmem]
  · rw [fetch_of_notMem hlist hmem, fetch_of_notMem hlist' (hperm.mem_iff.not.mpr hmem),
      symbolsAmong_eq_of_perm hperm]

end

end Feed

/-- The file system with something else at a path. -/
def FileSystem.withFile (files : FileSystem) (path : String) (found : Except FileError String) :
    FileSystem :=
  { files with read := fun path' => if path' = path then found else files.read path' }

namespace Feed

/-- Looking a symbol up reads the file at a path: with something else there it comes out differently. -/
def Reads (files : FileSystem) (directory symbol path : String) : Prop :=
  ∃ found, (ofDirectory (files.withFile path found) directory).fetch symbol ≠
    (ofDirectory files directory).fetch symbol

/-- Just one file is read, the entry of the symbol, and only if there is such an entry. -/
theorem reads_iff {files : FileSystem} {directory symbol path : String} {names : List String}
    (hlist : files.entries directory = .ok names) :
    Reads files directory symbol path ↔
      fileName symbol ∈ names ∧ path = joinPath directory (fileName symbol) := by
  have hlist' (found : Except FileError String) :
      (files.withFile path found).entries directory = .ok names := hlist
  constructor
  · rintro ⟨found, hne⟩
    by_contra hnot
    refine hne (fetch_congr hlist (hlist' found) (.refl names) fun hmem => ?_)
    exact if_neg fun hpath => hnot ⟨hmem, hpath.symm⟩
  · rintro ⟨hmem, rfl⟩
    have hfetch (found : Except FileError String) :
        (ofDirectory (files.withFile (joinPath directory (fileName symbol)) found) directory).fetch
          symbol = match found with
            | .ok text => Market.ofPriceFile text
            | .error e => .error (.unreadableFile (joinPath directory (fileName symbol)) e) := by
      have hread : (files.withFile (joinPath directory (fileName symbol)) found).read
          (joinPath directory (fileName symbol)) = found := if_pos rfl
      rw [fetch_of_mem (hlist' found) hmem, market_ofDirectory, hread]
    -- whatever comes out now, an empty file would succeed and a missing one fail
    unfold Reads
    cases (ofDirectory files directory).fetch symbol with
    | ok m => exact ⟨.error .notFound, by rw [hfetch]; exact nofun⟩
    | error e =>
      refine ⟨.ok "", ?_⟩
      rw [hfetch]
      exact nofun

theorem reason_unknownSymbol (symbol : String) (available : List String) :
    (Market.Error.unknownSymbol symbol available).reason =
      "unknown symbol " ++ symbol ++ " (available: " ++
        (if available = [] then "none" else ", ".intercalate available) ++ ")" := by
  unfold Market.Error.reason
  simp only [List.isEmpty_iff]

/-- **What a symbol can reach.** In a directory whose entries can be listed a symbol leads to the entry
of its name, if there is one, and the file of this entry is the only one that is read: its path is that
of the directory with this name behind it, one step further on. Of a file system nothing else counts
for the outcome but the names of the entries, in any order. Without such an entry the symbol is
unknown, and the complaint names the available symbols in ascending order, one for each entry that
ends like a price file, or tells that there are none. -/
theorem fetch_exact {files : FileSystem} {directory : String} {names : List String}
    (hlist : files.entries directory = .ok names) (symbol : String) :
    (∀ path, Reads files directory symbol path ↔
      fileName symbol ∈ names ∧ path = joinPath directory (fileName symbol)) ∧
    ((∀ name ∈ names, '/' ∉ name.toList) → ∀ path, Reads files directory symbol path →
      directory.toList <+: path.toList ∧ fileName symbol ≠ ".." ∧
        FileTree.steps path = FileTree.steps directory ++ [fileName symbol]) ∧
    (∀ files' names', files'.entries directory = .ok names' → names'.Perm names →
      (fileName symbol ∈ names → files'.read (joinPath directory (fileName symbol)) =
        files.read (joinPath directory (fileName symbol))) →
      (ofDirectory files' directory).fetch symbol = (ofDirectory files directory).fetch symbol) ∧
    (fileName symbol ∉ names → ∃ available,
      (ofDirectory files directory).fetch symbol = .error (.unknownSymbol symbol available) ∧
      available.Pairwise (· ≤ ·) ∧
      (available.map fileName).Perm (names.filter fun name => extension.isSuffixOf name.toList) ∧
      (Market.Error.unknownSymbol symbol available).reason =
        "unknown symbol " ++ symbol ++ " (available: " ++
          (if available = [] then "none" else ", ".intercalate available) ++ ")") := by
  refine ⟨fun path => reads_iff hlist, ?_, ?_, ?_⟩
  · intro hslash path hreads
    obtain ⟨hmem, rfl⟩ := (reads_iff hlist).mp hreads
    have hname := hslash _ hmem
    exact ⟨prefix_joinPath hname, fileName_ne_parent symbol,
      FileTree.steps_joinPath hname (isIdle_fileName symbol)⟩
  · intro files' names' hlist' hperm hread
    exact fetch_congr hlist hlist' hperm hread
  · intro hnot
    refine ⟨symbolsAmong names, fetch_of_notMem hlist hnot, pairwise_symbolsAmong names,
      map_fileName_symbolsAmong_perm names, reason_unknownSymbol symbol _⟩

/-- A directory of two price files, with another file next to it. -/
def twoSymbols : FileSystem :=
  .ofFindings
    [("data/SOL.csv", .ok "date,price,volume\n"), ("data/../secret.csv", .ok "date,price,volume\n")]
    [("data", .ok ["notes.txt", "SOL.csv", "BONK.csv"])]

/-- The same price file in a directory that is listed in another order, with nothing next to it. -/
def twoSymbolsAlone : FileSystem :=
  .ofFindings [("data/SOL.csv", .ok "date,price,volume\n")]
    [("data", .ok ["BONK.csv", "SOL.csv", "notes.txt"])]

/-- A symbol that points out of the directory, and one of its own. -/
theorem fetch_twoSymbols :
    (∀ path, ¬ Reads twoSymbols "data" "../secret" path) ∧
      (∃ available, (ofDirectory twoSymbols "data").fetch "../secret" =
        .error (.unknownSymbol "../secret" available) ∧
        (available.map fileName).Perm ["SOL.csv", "BONK.csv"]) ∧
      (∀ path, Reads twoSymbols "data" "SOL" path →
        FileTree.steps path = FileTree.steps "data" ++ ["SOL.csv"]) ∧
      (ofDirectory twoSymbolsAlone "data").fetch "SOL" =
        (ofDirectory twoSymbols "data").fetch "SOL" := by
  have hlist : twoSymbols.entries "data" = .ok ["notes.txt", "SOL.csv", "BONK.csv"] :=
    eq_ok_of_toOption (by decide +kernel)
  have hnot : fileName "../secret" ∉ ["notes.txt", "SOL.csv", "BONK.csv"] := by decide +kernel
  obtain ⟨hreads, -, -, hunknown⟩ := fetch_exact hlist "../secret"
  have hname : fileName "SOL" = "SOL.csv" := by decide +kernel
  obtain ⟨-, hpath, hsame, -⟩ := fetch_exact hlist "SOL"
  rw [hname] at hpath hsame
  refine ⟨fun path h => hnot ((hreads path).mp h).1, ?_,
    fun path h => (hpath (by decide +kernel) path h).2.2, ?_⟩
  · obtain ⟨available, hfetch, -, hperm, -⟩ := hunknown hnot
    have hfiltered : (["notes.txt", "SOL.csv", "BONK.csv"].filter fun name =>
        extension.isSuffixOf name.toList) = ["SOL.csv", "BONK.csv"] := by decide +kernel
    exact ⟨available, hfetch, hfiltered ▸ hperm⟩
  · have hpathname : joinPath "data" "SOL.csv" = "data/SOL.csv" := by decide +kernel
    refine hsame twoSymbolsAlone ["BONK.csv", "SOL.csv", "notes.txt"]
      (eq_ok_of_toOption (by decide +kernel)) (by decide) fun _ => ?_
    rw [hpathname]
    exact (eq_ok_of_toOption (a := "date,price,volume\n") (by decide +kernel)).trans
      (eq_ok_of_toOption (by decide +kernel)).symm

end Feed

end TradingRules
