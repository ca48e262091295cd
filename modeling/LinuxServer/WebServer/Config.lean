import LinuxServer.Lib.Getopt
import LinuxServer.Lib.Decimal
import LinuxServer.Lib.CInt
import LinuxServer.Lib.Loop

/-!
# `WebServer/Config.lean` — the command line of the web server

`Config::parse_arg` calls `getopt` until it answers -1, and stores `atoi(optarg)` in the field that the letter stands
for. Every command line is made of pieces, in the forms that `getopt` knows (`exists_pieces`), and behind one each
field has the value that was given to it last, or its default (`parseArg_last`). So what stands between the options
does not matter, nor does their order; and a configuration that is written as options, in any order and form, is read
back (`parseArg_settings`).
-/

set_option autoImplicit false

namespace LinuxServer
namespace WebServer

/-- `atoi(w)`. -/
def atoi (w : List Byte) : Int := toInt (atol w)

structure Config where
  port : Int
  logWrite : Int
  trigMode : Int
  listenTrigmode : Int
  connTrigmode : Int
  optLinger : Int
  sqlNum : Int
  threadNum : Int
  closeLog : Int
  actorModel : Int
  deriving DecidableEq, Repr

namespace Config

/-- `Config()`. -/
def default : Config where
  port := 9006
  logWrite := 0
  trigMode := 0
  listenTrigmode := 0
  connTrigmode := 0
  optLinger := 0
  sqlNum := 8
  threadNum := 8
  closeLog := 0
  actorModel := 0

/-- `str`. -/
def optstring : List Byte := bytes "p:l:m:o:s:t:c:a:"

/-- The `switch` of `parse_arg`. -/
def set (c : Config) : Opt → Config
  | .option 112 (some optarg) => { c with port := atoi optarg }
  | .option 108 (some optarg) => { c with logWrite := atoi optarg }
  | .option 109 (some optarg) => { c with trigMode := atoi optarg }
  | .option 111 (some optarg) => { c with optLinger := atoi optarg }
  | .option 115 (some optarg) => { c with sqlNum := atoi optarg }
  | .option 116 (some optarg) => { c with threadNum := atoi optarg }
  | .option 99 (some optarg) => { c with closeLog := atoi optarg }
  | .option 97 (some optarg) => { c with actorModel := atoi optarg }
  | _ => c

/-- One turn of its loop. -/
def parseStep (s : Config × Getopt) : Except Fault (Config ⊕ (Config × Getopt)) :=
  match s.2.next optstring with
  | none => .ok (.inl s.1)
  | some (opt, g) => .ok (.inr (s.1.set opt, g))

/-- The loop, from where `getopt` is. -/
def parseFrom (c : Config) (g : Getopt) : Except Fault Config := whileLoop parseStep (g.size + 1) (c, g)

/-- `parse_arg`. The first element is the name of the program. -/
def parseArg (c : Config) (argv : List (List Byte)) : Except Fault Config := c.parseFrom ⟨[], argv.tail⟩

/-! ## The loop -/

theorem parseStep_decreasing : Decreasing parseStep fun s => s.2.size := by
  intro s s' h
  unfold parseStep at h
  split at h
  · cases h
  · rename_i opt g hnext
    cases h
    exact Getopt.size_next hnext

/-- One call, and the loop from where it leaves. -/
theorem parseFrom_some {c : Config} {g g' : Getopt} {opt : Opt} (h : g.next optstring = some (opt, g')) :
    c.parseFrom g = (c.set opt).parseFrom g' := by
  refine (whileLoop_eq parseStep_decreasing (Nat.lt_succ_self _)).trans ?_
  simp only [parseStep, h]
  have hlt : g'.size < g.size + 1 := Nat.lt_succ_of_lt (Getopt.size_next h)
  exact whileLoop_fuel parseStep_decreasing hlt (Nat.lt_succ_self _)

theorem parseFrom_none {c : Config} {g : Getopt} (h : g.next optstring = none) : c.parseFrom g = .ok c := by
  refine (whileLoop_eq parseStep_decreasing (Nat.lt_succ_self _)).trans ?_
  simp only [parseStep, h]

/-- Two places from which `getopt` goes on in the same way. -/
theorem parseFrom_congr {g g' : Getopt} (h : g.next optstring = g'.next optstring) (c : Config) :
    c.parseFrom g = c.parseFrom g' := by
  cases hnext : g'.next optstring with
  | none => rw [parseFrom_none (h.trans hnext), parseFrom_none hnext]
  | some answer => rw [parseFrom_some (h.trans hnext), parseFrom_some hnext]

end Config

/-! ## Command lines -/

/-- The letters of the options. -/
def letters : List Byte := bytes "plmostca"

theorem takes_of_mem {c : Byte} (hc : c ∈ letters) : Getopt.takes Config.optstring c = some true := by
  have hall : letters.all (fun c => Getopt.takes Config.optstring c = some true) = true := by decide
  exact of_decide_eq_true (List.all_eq_true.mp hall c hc)

theorem takes_of_notMem {c : Byte} (hc : c ∉ letters) : Getopt.takes Config.optstring c = none := by
  have hletters : letters = [112, 108, 109, 111, 115, 116, 99, 97] := by decide
  have hoptstring : Config.optstring = [112, 58, 108, 58, 109, 58, 111, 58, 115, 58, 116, 58, 99, 58, 97, 58] := by
    decide
  rw [hletters] at hc
  simp only [List.mem_cons, List.not_mem_nil, or_false, not_or] at hc
  obtain ⟨hp, hl, hm, ho, hs, ht, hc, ha⟩ := hc
  have hcolon : ∀ {rest : List Byte}, Getopt.takes (58 :: rest) c = Getopt.takes rest c := if_neg fun h => h.2 h.1.symm
  have hother : ∀ {o : Byte} {rest : List Byte}, ¬ c = o → Getopt.takes (o :: rest) c = Getopt.takes rest c :=
    fun hne => if_neg fun h => hne h.1.symm
  rw [hoptstring, hother hp, hcolon, hother hl, hcolon, hother hm, hcolon, hother ho, hcolon, hother hs, hcolon,
    hother ht, hcolon, hother hc, hcolon, hother ha, hcolon]
  rfl

/-- What stands on a command line: an option, with letters that are none in front of it, and its value behind it or
    in the next element; a row of letters that are none; or an element that is no option. -/
inductive Piece
  | joined (skipped : List Byte) (c : Byte) (value : List Byte) (known : c ∈ letters) (nonempty : value ≠ [])
    (unknown : ∀ d ∈ skipped, d ∉ letters)
  | separate (skipped : List Byte) (c : Byte) (value : List Byte) (known : c ∈ letters)
    (unknown : ∀ d ∈ skipped, d ∉ letters)
  | operand (w : List Byte) (isOperand : Getopt.operand w = true)
  | noOption (skipped : List Byte) (nonempty : skipped ≠ []) (noEnd : skipped ≠ [45])
    (unknown : ∀ d ∈ skipped, d ∉ letters)

namespace Piece

/-- Its elements. -/
def elements : Piece → List (List Byte)
  | joined skipped c value .. => [45 :: (skipped ++ c :: value)]
  | separate skipped c value .. => [45 :: (skipped ++ [c]), value]
  | operand w .. => [w]
  | noOption skipped .. => [45 :: skipped]

/-- What it sets. -/
def setting : Piece → Option (Byte × List Byte)
  | joined _ c value .. | separate _ c value .. => some (c, value)
  | operand .. | noOption .. => none

end Piece

/-- The end of the options: nothing; `--` with anything behind it; or an option without its value. -/
def Ending (tail : List (List Byte)) : Prop :=
  tail = [] ∨ (∃ rest, tail = [45, 45] :: rest) ∨
    ∃ skipped c, c ∈ letters ∧ (∀ d ∈ skipped, d ∉ letters) ∧ tail = [45 :: (skipped ++ [c])]

/-- The first letter of an option in an element, if there is one. -/
theorem letters_cases (w : List Byte) : (∀ d ∈ w, d ∉ letters) ∨
    ∃ skipped c value, c ∈ letters ∧ (∀ d ∈ skipped, d ∉ letters) ∧ w = skipped ++ c :: value := by
  induction w with
  | nil => exact .inl (List.forall_mem_nil _)
  | cons x w ih =>
    by_cases hx : x ∈ letters
    · exact .inr ⟨[], x, w, hx, List.forall_mem_nil _, rfl⟩
    · rcases ih with hnone | ⟨skipped, c, value, hc, hskipped, rfl⟩
      · exact .inl (List.forall_mem_cons.mpr ⟨hx, hnone⟩)
      · exact .inr ⟨x :: skipped, c, value, hc, List.forall_mem_cons.mpr ⟨hx, hskipped⟩, rfl⟩

theorem operand_cases (w : List Byte) : Getopt.operand w = true ∨ ∃ c nextchar, w = 45 :: c :: nextchar := by
  unfold Getopt.operand
  split
  · exact .inr ⟨_, _, rfl⟩
  · exact .inl rfl

/-- The pieces of a command line, behind the name of the program. -/
def MadeOf (args : List (List Byte)) (pieces : List Piece) : Prop :=
  ∃ tail, Ending tail ∧ args = pieces.flatMap Piece.elements ++ tail

/-- **Every command line** is made of pieces. -/
theorem exists_pieces : ∀ args : List (List Byte), ∃ pieces, MadeOf args pieces
  | [] => ⟨[], [], .inl rfl, rfl⟩
  | w :: rest => by
    have hnext : ∀ (piece : Piece) {rest' : List (List Byte)}, w :: rest = piece.elements ++ rest' →
        (∃ pieces, MadeOf rest' pieces) → ∃ pieces, MadeOf (w :: rest) pieces := by
      rintro piece rest' hpiece ⟨pieces, tail, htail, rfl⟩
      exact ⟨piece :: pieces, tail, htail, by rw [hpiece, List.flatMap_cons, List.append_assoc]⟩
    rcases operand_cases w with hw | ⟨c, nextchar, rfl⟩
    · exact hnext (.operand w hw) rfl (exists_pieces rest)
    · by_cases hend : c :: nextchar = [45]
      · exact ⟨[], _, .inr (.inl ⟨rest, by rw [hend]⟩), rfl⟩
      · rcases letters_cases (c :: nextchar) with hnone | ⟨skipped, d, value, hd, hskipped, hw⟩
        · exact hnext (.noOption _ (List.cons_ne_nil _ _) hend hnone) rfl (exists_pieces rest)
        · rw [hw] at hnext ⊢
          cases value with
          | cons x value =>
            exact hnext (.joined skipped d _ hd (List.cons_ne_nil _ _) hskipped) rfl (exists_pieces rest)
          | nil =>
            cases rest with
            | nil => exact ⟨[], _, .inr (.inr ⟨skipped, d, hd, hskipped, rfl⟩), rfl⟩
            | cons value rest => exact hnext (.separate skipped d value hd hskipped) rfl (exists_pieces rest)

namespace Config

def apply (c : Config) (setting : Byte × List Byte) : Config := c.set (.option setting.1 (some setting.2))

/-- Letters that are no options set nothing. -/
theorem parseFrom_skipped (c : Config) {skipped : List Byte} (hskipped : ∀ d ∈ skipped, d ∉ letters)
    (w : List Byte) (rest : List (List Byte)) :
    c.parseFrom ⟨skipped ++ w, rest⟩ = c.parseFrom ⟨w, rest⟩ := by
  induction skipped with
  | nil => rfl
  | cons d skipped ih =>
    obtain ⟨hd, hskipped⟩ := List.forall_mem_cons.mp hskipped
    exact (parseFrom_some (Getopt.next_unknown (takes_of_notMem hd) _ rest)).trans (ih hskipped)

/-- An element with a letter in it that is one. -/
theorem parseFrom_option (c : Config) {skipped : List Byte} (hskipped : ∀ d ∈ skipped, d ∉ letters) {d : Byte}
    (hd : d ∈ letters) (value : List Byte) (rest : List (List Byte)) :
    c.parseFrom ⟨[], (45 :: (skipped ++ d :: value)) :: rest⟩ = c.parseFrom ⟨d :: value, rest⟩ := by
  have hmem : d ∈ skipped ++ d :: value := List.mem_append_right _ (List.mem_cons_self ..)
  have hne : skipped ++ d :: value ≠ [] := List.ne_nil_of_mem hmem
  have hend : skipped ++ d :: value ≠ [45] := by
    intro heq
    rw [heq] at hmem
    rw [List.mem_singleton.mp hmem] at hd
    exact absurd hd (by decide)
  exact (parseFrom_congr (Getopt.next_element hne hend rest) c).trans (parseFrom_skipped c hskipped _ _)

theorem parseFrom_ending (c : Config) {tail : List (List Byte)} (htail : Ending tail) :
    c.parseFrom ⟨[], tail⟩ = .ok c := by
  rcases htail with rfl | ⟨rest, rfl⟩ | ⟨skipped, d, hd, hskipped, rfl⟩
  · exact parseFrom_none Getopt.next_nil
  · exact parseFrom_none (Getopt.next_end rest)
  · refine (parseFrom_option c hskipped hd [] []).trans ?_
    exact (parseFrom_some (Getopt.next_missing (takes_of_mem hd))).trans (parseFrom_none Getopt.next_nil)

/-- **A command line** sets what its pieces set, one after the other. -/
theorem parseFrom_pieces {tail : List (List Byte)} (htail : Ending tail) : ∀ (pieces : List Piece) (c : Config),
    c.parseFrom ⟨[], pieces.flatMap Piece.elements ++ tail⟩ =
      .ok ((pieces.filterMap Piece.setting).foldl apply c)
  | [], c => parseFrom_ending c htail
  | piece :: pieces, c => by
    rw [List.flatMap_cons, List.append_assoc]
    cases piece with
    | joined skipped d value known nonempty unknown =>
      have hnext := Getopt.next_joined (takes_of_mem known) nonempty (pieces.flatMap Piece.elements ++ tail)
      have hsetting : Piece.setting (.joined skipped d value known nonempty unknown) = some (d, value) := rfl
      rw [List.filterMap_cons_some hsetting, List.foldl_cons]
      exact (parseFrom_option c unknown known value _).trans
        ((parseFrom_some hnext).trans (parseFrom_pieces htail pieces _))
    | separate skipped d value known unknown =>
      have hnext := Getopt.next_separate (takes_of_mem known) value (pieces.flatMap Piece.elements ++ tail)
      have hsetting : Piece.setting (.separate skipped d value known unknown) = some (d, value) := rfl
      rw [List.filterMap_cons_some hsetting, List.foldl_cons]
      exact (parseFrom_option c unknown known [] _).trans
        ((parseFrom_some hnext).trans (parseFrom_pieces htail pieces _))
    | operand w isOperand =>
      have hnext := @Getopt.next_operand optstring w isOperand (pieces.flatMap Piece.elements ++ tail)
      rw [List.filterMap_cons_none rfl]
      exact (parseFrom_congr hnext c).trans (parseFrom_pieces htail pieces c)
    | noOption skipped nonempty noEnd unknown =>
      have hnext := @Getopt.next_element optstring _ nonempty noEnd (pieces.flatMap Piece.elements ++ tail)
      have hskipped := parseFrom_skipped c unknown [] (pieces.flatMap Piece.elements ++ tail)
      rw [List.append_nil] at hskipped
      rw [List.filterMap_cons_none rfl]
      exact (parseFrom_congr hnext c).trans (hskipped.trans (parseFrom_pieces htail pieces c))

/-- The field that a letter stands for. -/
def field (c : Config) : Byte → Int
  | 112 => c.port
  | 108 => c.logWrite
  | 109 => c.trigMode
  | 111 => c.optLinger
  | 115 => c.sqlNum
  | 116 => c.threadNum
  | 99 => c.closeLog
  | 97 => c.actorModel
  | _ => 0

/-- Setting a field is setting that field. -/
theorem field_apply (c : Config) (setting : Byte × List Byte) {l : Byte} (hl : l ∈ letters) :
    (c.apply setting).field l = if setting.1 = l then atoi setting.2 else c.field l := by
  obtain ⟨d, value⟩ := setting
  have hletters : letters = [112, 108, 109, 111, 115, 116, 99, 97] := by decide
  by_cases hd : d ∈ letters
  · rw [hletters] at hd hl
    simp only [List.mem_cons, List.not_mem_nil, or_false] at hd hl
    rcases hd with rfl | rfl | rfl | rfl | rfl | rfl | rfl | rfl <;>
      rcases hl with rfl | rfl | rfl | rfl | rfl | rfl | rfl | rfl <;> rfl
  · -- no letter of the `switch`
    have hne : d ≠ l := fun h => hd (h ▸ hl)
    have hsame : c.apply (d, value) = c := by
      rw [hletters] at hd
      simp only [List.mem_cons, List.not_mem_nil, or_false, not_or] at hd
      unfold apply set
      split <;> simp_all
    rw [hsame, if_neg hne]

/-- The modes that `trig_mode` sets are in no option. -/
theorem modes_apply (c : Config) (setting : Byte × List Byte) :
    (c.apply setting).listenTrigmode = c.listenTrigmode ∧ (c.apply setting).connTrigmode = c.connTrigmode := by
  unfold apply set
  split <;> exact ⟨rfl, rfl⟩

theorem modes_foldl (settings : List (Byte × List Byte)) (c : Config) :
    (settings.foldl apply c).listenTrigmode = c.listenTrigmode ∧
      (settings.foldl apply c).connTrigmode = c.connTrigmode := by
  induction settings generalizing c with
  | nil => exact ⟨rfl, rfl⟩
  | cons setting settings ih =>
    obtain ⟨hlisten, hconn⟩ := ih (c.apply setting)
    obtain ⟨hlisten', hconn'⟩ := c.modes_apply setting
    exact ⟨hlisten.trans hlisten', hconn.trans hconn'⟩

/-- The values that are given for a letter, in their order. -/
def valuesOf (l : Byte) (settings : List (Byte × List Byte)) : List (List Byte) :=
  (settings.filter fun setting => setting.1 = l).map Prod.snd

theorem valuesOf_cons (l : Byte) (setting : Byte × List Byte) (settings : List (Byte × List Byte)) :
    valuesOf l (setting :: settings) =
      if setting.1 = l then setting.2 :: valuesOf l settings else valuesOf l settings := by
  unfold valuesOf
  rw [List.filter_cons]
  by_cases hsame : setting.1 = l
  · rw [if_pos hsame, if_pos (decide_eq_true hsame), List.map_cons]
  · rw [if_neg hsame, if_neg fun h => hsame (of_decide_eq_true h)]

/-- What is given last stays. -/
theorem field_foldl (settings : List (Byte × List Byte)) (c : Config) {l : Byte} (hl : l ∈ letters) :
    (settings.foldl apply c).field l = ((valuesOf l settings).map atoi).getLastD (c.field l) := by
  induction settings generalizing c with
  | nil => rfl
  | cons setting settings ih =>
    rw [List.foldl_cons, ih, field_apply c setting hl, valuesOf_cons]
    by_cases hsame : setting.1 = l
    · rw [if_pos hsame, if_pos hsame, List.map_cons, List.getLastD_cons]
    · rw [if_neg hsame, if_neg hsame]

/-- **What was given last**: on every command line, and every one is of pieces, each field has the value of the last
    option for its letter, or what it had if there is none, wherever else on the line operands, unknown letters and the
    other options stand. -/
theorem parseArg_last (c : Config) (program : List Byte) (args : List (List Byte)) :
    (∃ pieces, MadeOf args pieces) ∧ ∀ pieces, MadeOf args pieces →
      ∃ c', c.parseArg (program :: args) = .ok c' ∧
        (∀ l ∈ letters,
          c'.field l = ((valuesOf l (pieces.filterMap Piece.setting)).map atoi).getLastD (c.field l)) ∧
        c'.listenTrigmode = c.listenTrigmode ∧ c'.connTrigmode = c.connTrigmode := by
  refine ⟨exists_pieces args, ?_⟩
  rintro pieces ⟨tail, htail, rfl⟩
  exact ⟨_, parseFrom_pieces htail pieces c, fun _ hl => field_foldl _ c hl, modes_foldl _ c⟩

theorem none_unknown : ∀ d ∈ ([] : List Byte), d ∉ letters := List.forall_mem_nil _

theorem one_unknown : ∀ d ∈ [(120 : Byte)], d ∉ letters := List.forall_mem_singleton.mpr (by decide)

/-- `server a.txt -xp80 -m 3 -x -p 8080 -t`. -/
theorem parseArg_last_ports :
    ∃ c', default.parseArg (["server", "a.txt", "-xp80", "-m", "3", "-x", "-p", "8080", "-t"].map bytes) = .ok c' ∧
      (∀ l ∈ letters, c'.field l = ((valuesOf l
        [(112, bytes "80"), (109, bytes "3"), (112, bytes "8080")]).map atoi).getLastD (default.field l)) ∧
      c'.listenTrigmode = 0 ∧ c'.connTrigmode = 0 :=
  (parseArg_last default (bytes "server") _).2
    [.operand (bytes "a.txt") rfl, .joined [120] 112 (bytes "80") (by decide) (by decide) one_unknown,
      .separate [] 109 (bytes "3") (by decide) none_unknown, .noOption [120] (by decide) (by decide) one_unknown,
      .separate [] 112 (bytes "8080") (by decide) none_unknown]
    ⟨[bytes "-t"], .inr (.inr ⟨[], 116, by decide, none_unknown, rfl⟩), rfl⟩

/-! ## A configuration on a command line -/

theorem atoi_decimal {n : Int} (hmin : intMin ≤ n) (hmax : n ≤ intMax) : atoi (decimal n) = n := by
  have hlong : longMin ≤ n ∧ n ≤ longMax := by
    unfold longMin longMax
    unfold intMin at hmin
    unfold intMax at hmax
    omega
  rw [atoi, atol_decimal hlong.1 hlong.2, toInt_of_le hmin hmax]

/-- The options that say a configuration. -/
def settings (c : Config) : List (Byte × List Byte) := letters.map fun l => (l, decimal (c.field l))

/-- Each letter is among them once. -/
theorem valuesOf_settings (c : Config) {l : Byte} (hl : l ∈ letters) :
    valuesOf l c.settings = [decimal (c.field l)] := by
  have hletters : letters = [112, 108, 109, 111, 115, 116, 99, 97] := by decide
  unfold settings
  rw [hletters] at hl ⊢
  simp only [List.mem_cons, List.not_mem_nil, or_false] at hl
  rcases hl with rfl | rfl | rfl | rfl | rfl | rfl | rfl | rfl <;> rfl

theorem ext_field {c c' : Config} (hfield : ∀ l ∈ letters, c.field l = c'.field l)
    (hlisten : c.listenTrigmode = c'.listenTrigmode) (hconn : c.connTrigmode = c'.connTrigmode) : c = c' := by
  have hport := hfield 112 (by decide)
  have hlog := hfield 108 (by decide)
  have htrig := hfield 109 (by decide)
  have hlinger := hfield 111 (by decide)
  have hsql := hfield 115 (by decide)
  have hthread := hfield 116 (by decide)
  have hclose := hfield 99 (by decide)
  have hactor := hfield 97 (by decide)
  cases c
  cases c'
  simp only [field] at *
  subst_vars
  rfl

/-- **A configuration is read back** from a command line that has its options, in any order, each joined or separate,
    with operands and unknown letters anywhere between them. -/
theorem parseArg_settings {c : Config} (hrange : ∀ l ∈ letters, intMin ≤ c.field l ∧ c.field l ≤ intMax)
    (hlisten : c.listenTrigmode = 0) (hconn : c.connTrigmode = 0) (program : List Byte) {args : List (List Byte)}
    {pieces : List Piece} (hline : MadeOf args pieces)
    (hpieces : (pieces.filterMap Piece.setting).Perm c.settings) : default.parseArg (program :: args) = .ok c := by
  obtain ⟨tail, htail, rfl⟩ := hline
  obtain ⟨hlisten', hconn'⟩ := modes_foldl (pieces.filterMap Piece.setting) default
  refine (parseFrom_pieces htail pieces default).trans (congrArg _ (ext_field ?_ ?_ ?_))
  · intro l hl
    have hvalues : (valuesOf l (pieces.filterMap Piece.setting)).Perm [decimal (c.field l)] := by
      rw [← valuesOf_settings c hl]
      exact (hpieces.filter _).map _
    rw [field_foldl _ default hl, List.perm_singleton.mp hvalues]
    exact atoi_decimal (hrange l hl).1 (hrange l hl).2
  · exact hlisten'.trans hlisten.symm
  · exact hconn'.trans hconn.symm

/-- A configuration with all fields changed but one. -/
theorem parseArg_settings_all :
    default.parseArg
      (["server", "-a1", "-c", "1", "-xt4", "-s4", "a.txt", "-o1", "-m3", "-l", "0", "-p-1"].map bytes) =
      .ok ⟨-1, 0, 3, 0, 0, 1, 4, 4, 1, 1⟩ := by
  have hrange : letters.all (fun l => intMin ≤ field ⟨-1, 0, 3, 0, 0, 1, 4, 4, 1, 1⟩ l ∧
      field ⟨-1, 0, 3, 0, 0, 1, 4, 4, 1, 1⟩ l ≤ intMax) = true := by decide
  let pieces : List Piece :=
    [.joined [] 97 (bytes "1") (by decide) (by decide) none_unknown,
      .separate [] 99 (bytes "1") (by decide) none_unknown,
      .joined [120] 116 (bytes "4") (by decide) (by decide) one_unknown,
      .joined [] 115 (bytes "4") (by decide) (by decide) none_unknown, .operand (bytes "a.txt") rfl,
      .joined [] 111 (bytes "1") (by decide) (by decide) none_unknown,
      .joined [] 109 (bytes "3") (by decide) (by decide) none_unknown,
      .separate [] 108 (bytes "0") (by decide) none_unknown,
      .joined [] 112 (bytes "-1") (by decide) (by decide) none_unknown]
  have hpieces : (pieces.filterMap Piece.setting).Perm (settings ⟨-1, 0, 3, 0, 0, 1, 4, 4, 1, 1⟩) := by decide
  exact parseArg_settings (fun l hl => of_decide_eq_true (List.all_eq_true.mp hrange l hl)) rfl rfl (bytes "server")
    ⟨[], .inl rfl, rfl⟩ hpieces

end Config

end WebServer
end LinuxServer
