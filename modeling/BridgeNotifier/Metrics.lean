import BridgeNotifier.Calls
set_option autoImplicit false

namespace BridgeNotifier

inductive Family where
  | averageDuration
  | checkpoint
  | dispatches
  | rejectedAverages
  | sweepErrors
  | sweepPages
  | sweepTicks
  deriving DecidableEq, Repr

namespace Family

def all : List Family :=
  [.averageDuration, .checkpoint, .dispatches, .rejectedAverages, .sweepErrors, .sweepPages,
    .sweepTicks]

def name : Family → String
  | .averageDuration => "bridge_push_average_duration_secs"
  | .checkpoint => "bridge_push_checkpoint"
  | .dispatches => "bridge_push_dispatches"
  | .rejectedAverages => "bridge_push_rejected_averages"
  | .sweepErrors => "bridge_push_sweep_errors"
  | .sweepPages => "bridge_push_sweep_pages"
  | .sweepTicks => "bridge_push_sweep_ticks"

def help : Family → String
  | .averageDuration => "Last accepted average batch duration in seconds"
  | .checkpoint => "Last checkpoint value written by this replica"
  | .dispatches => "Total number of notification sends by status and result"
  | .rejectedAverages => "Total number of out-of-bound duration averages discarded"
  | .sweepErrors => "Total number of aborted sweep ticks by task and error type"
  | .sweepPages => "Total number of record store pages queried by task"
  | .sweepTicks => "Total number of sweep ticks by task and outcome"

def isGauge : Family → Bool
  | .averageDuration | .checkpoint => true
  | _ => false

def labels : Family → List String
  | .averageDuration | .rejectedAverages => ["role"]
  | .checkpoint => ["watermark"]
  | .dispatches => ["result", "status"]
  | .sweepErrors => ["error_type", "task"]
  | .sweepPages => ["task"]
  | .sweepTicks => ["outcome", "task"]

end Family

structure Series where
  family : Family
  values : List String
  deriving DecidableEq, Repr

abbrev Metrics := List (Series × Int)

namespace Metrics

def signed (n : UInt64) : Int :=
  n.toInt64.toInt

def seriesOf : Measurement → Series
  | .tickEnded task outcome => ⟨.sweepTicks, [outcome, task]⟩
  | .tickFailed task kind => ⟨.sweepErrors, [kind.label, task]⟩
  | .page task => ⟨.sweepPages, [task]⟩
  | .checkpoint w _ => ⟨.checkpoint, [w.name]⟩
  | .average r _ => ⟨.averageDuration, [r.name]⟩
  | .averageRejected r => ⟨.rejectedAverages, [r.name]⟩
  | .notice status result => ⟨.dispatches, [result.label, status.name]⟩

def updated : Measurement → Int → Int
  | .checkpoint _ v, _ => signed v
  | .average _ v, _ => signed v
  | _, old => old + 1

def value (m : Metrics) (s : Series) : Int :=
  (m.lookup s).getD 0

def record : Metrics → Measurement → Metrics
  | [], x => [(seriesOf x, updated x 0)]
  | (s, v) :: m, x => if s = seriesOf x then (s, updated x v) :: m else (s, v) :: record m x

theorem value_record_self (m : Metrics) (x : Measurement) :
    (m.record x).value (seriesOf x) = updated x (m.value (seriesOf x)) := by
  induction m with
  | nil => simp [record, value]
  | cons e m ih =>
    obtain ⟨s, v⟩ := e
    by_cases h : s = seriesOf x
    · subst h
      simp [record, value]
    · have h' : (seriesOf x == s) = false := by simpa using fun hs => h hs.symm
      simp only [record, if_neg h, value, List.lookup_cons, h'] at ih ⊢
      exact ih

theorem value_record_of_ne (m : Metrics) (x : Measurement) {s : Series} (hs : s ≠ seriesOf x) :
    (m.record x).value s = m.value s := by
  induction m with
  | nil =>
    have h' : (s == seriesOf x) = false := by simpa using hs
    simp [record, value, List.lookup_cons, h']
  | cons e m ih =>
    obtain ⟨t, v⟩ := e
    by_cases h : t = seriesOf x
    · have h' : (s == t) = false := by simpa [h] using hs
      simp [record, if_pos h, value, List.lookup_cons, h']
    · cases ht : s == t with
      | true => simp [record, if_neg h, value, List.lookup_cons, ht]
      | false =>
        simp only [record, if_neg h, value, List.lookup_cons, ht] at ih ⊢
        exact ih

/-- A number with its low bits rounded away so that 53 remain; of two neighbours at the same
distance the even one is taken. -/
def roundTo53 (n : Nat) : Nat :=
  let width := if n = 0 then 0 else n.log2 + 1
  let unit := 1 <<< (width - 53)
  let q := n / unit
  let r := n % unit
  let q := if unit < 2 * r ∨ (2 * r = unit ∧ q % 2 = 1 ∧ 1 < unit) then q + 1 else q
  q * unit

/-- A sample as written: the scraped format holds binary fractions of 53 bits. -/
def sampleText (v : Int) : String :=
  let n := Text.Numeral.decimal (roundTo53 v.natAbs)
  if v < 0 then "-" ++ n else n

def textsLt : List String → List String → Bool
  | [], _ => false
  | _, [] => false
  | a :: as, b :: bs => if a = b then textsLt as bs else decide (a < b)

def samples (m : Metrics) (f : Family) : List (Series × Int) :=
  (m.filter fun e => e.1.family = f).mergeSort fun a b => !textsLt b.1.values a.1.values

def fullName (start : String) (f : Family) : String :=
  if start = "" then f.name else start ++ "_" ++ f.name

def sampleLine (start : String) (e : Series × Int) : String :=
  let pairs := (e.1.family.labels.zip e.1.values).map fun (n, v) => n ++ "=\"" ++ v ++ "\""
  fullName start e.1.family ++ "\x7b" ++ ",".intercalate pairs ++ "\x7d " ++ sampleText e.2

def lines (m : Metrics) (start : String) : List String :=
  Family.all.flatMap fun f => (m.samples f).map (sampleLine start)

def page (m : Metrics) (start : String) : String :=
  String.join (Family.all.map fun f =>
    match m.samples f with
    | [] => ""
    | es =>
      let name := fullName start f
      "# HELP " ++ name ++ " " ++ f.help ++ "\n" ++
        "# TYPE " ++ name ++ (if f.isGauge then " gauge\n" else " counter\n") ++
        String.join (es.map fun e => sampleLine start e ++ "\n"))

structure Response where
  status : Nat
  contentType : Option String
  body : String
  deriving DecidableEq, Repr

def respond (m : Metrics) (start path : String) : Response :=
  if path = "/metrics" then ⟨200, some "text/plain; version=0.0.4", m.page start⟩
  else ⟨404, none, ""⟩

end Metrics
end BridgeNotifier
