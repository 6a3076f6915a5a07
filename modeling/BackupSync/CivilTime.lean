import Mathlib

/-!
# Calendar time stamps

Seconds of the Unix epoch as a time stamp in digits and back. Days are counted
from the first of March of the year 0, so that a leap day is the last of its
year; four centuries, one century, four years and one year are split off in turn.
-/
namespace CivilTime

structure Date where
  year : Nat
  month : Nat
  day : Nat
  deriving DecidableEq, Repr

/-- The year that starts in March, and the day of that year. -/
def marchYear (days : Nat) : Nat × Nat :=
  let rest := days%146097
  let century := min (rest/36524) 3
  let ofCentury := rest-36524*century
  let ofFour := ofCentury%1461
  let year := min (ofFour/365) 3
  (400*(days/146097)+100*century+4*(ofCentury/1461)+year,ofFour-365*year)

/-- The date of a day of a year that starts in March. -/
def ofMarch (year dayOfYear : Nat) : Date :=
  let month := (5*dayOfYear+2)/153
  if month < 10 then ⟨year,month+3,dayOfYear-(153*month+2)/5+1⟩
  else ⟨year+1,month-9,dayOfYear-(153*month+2)/5+1⟩

def civil (days : Nat) : Date := ofMarch (marchYear days).1 (marchYear days).2

def daysOf (date : Date) : Nat :=
  let year := if 2 < date.month then date.year else date.year-1
  let month := if 2 < date.month then date.month-3 else date.month+9
  365*year+year/4-year/100+year/400+(153*month+2)/5+date.day-1

theorem marchYear_spec (days : Nat) :
    365*(marchYear days).1+(marchYear days).1/4-(marchYear days).1/100+(marchYear days).1/400+
      (marchYear days).2 = days ∧ (marchYear days).2 ≤ 365 := by
  simp only [marchYear]
  generalize hrest : days%146097 = rest
  generalize hera : days/146097 = era
  have hdays : days = 146097*era+rest := by omega
  have hbound : rest < 146097 := by omega
  generalize hcentury : min (rest/36524) 3 = century
  have hc : century ≤ 3 ∧ 36524*century ≤ rest ∧ rest-36524*century ≤ 36524 := by omega
  generalize hof : rest-36524*century = ofCentury
  generalize hfour : ofCentury/1461 = four
  generalize hofFour : ofCentury%1461 = ofFour
  have hf : four ≤ 24 ∧ ofCentury = 1461*four+ofFour ∧ ofFour < 1461 := by omega
  generalize hyear : min (ofFour/365) 3 = year
  have hy : year ≤ 3 ∧ 365*year ≤ ofFour ∧ ofFour-365*year ≤ 365 := by omega
  have h4 : (400*era+100*century+4*four+year)/4 = 100*era+25*century+four := by omega
  have h100 : (400*era+100*century+4*four+year)/100 = 4*era+century := by omega
  have h400 : (400*era+100*century+4*four+year)/400 = era := by omega
  rw [h4,h100,h400]
  omega

theorem daysOf_ofMarch {year dayOfYear : Nat} (h : dayOfYear ≤ 365) :
    daysOf (ofMarch year dayOfYear) = 365*year+year/4-year/100+year/400+dayOfYear := by
  have hm : (5*dayOfYear+2)/153 ≤ 11 ∧ (153*((5*dayOfYear+2)/153)+2)/5 ≤ dayOfYear := by omega
  unfold ofMarch daysOf
  by_cases hlate : (5*dayOfYear+2)/153 < 10
  · simp only [hlate,if_true,show 2 < (5*dayOfYear+2)/153+3 from by omega,Nat.add_sub_cancel]
    omega
  · simp only [hlate,if_false,show ¬ 2 < (5*dayOfYear+2)/153-9 from by omega,Nat.add_sub_cancel,
      show (5*dayOfYear+2)/153-9+9 = (5*dayOfYear+2)/153 from by omega]
    omega

theorem daysOf_civil (days : Nat) : daysOf (civil days) = days := by
  obtain ⟨hdays,hday⟩ := marchYear_spec days
  rw [civil,daysOf_ofMarch hday,hdays]

/-- Up to the end of the year 9999 every part of a date has its number of digits. -/
theorem civil_bounds {days : Nat} (h : days ≤ 3652364) :
    (civil days).year < 10000 ∧ (civil days).month < 100 ∧ (civil days).day < 100 := by
  obtain ⟨hdays,hday⟩ := marchYear_spec days
  unfold civil ofMarch
  generalize (marchYear days).1 = year at hdays
  generalize (marchYear days).2 = day at hdays hday
  dsimp only
  have hm : (5*day+2)/153 ≤ 11 := by omega
  have hd : day-(153*((5*day+2)/153)+2)/5+1 < 100 := by omega
  split
  · refine ⟨?_,?_,hd⟩
    · dsimp only
      omega
    · dsimp only
      omega
  · refine ⟨?_,?_,hd⟩
    · dsimp only
      omega
    · dsimp only
      omega

section Digits

/-- A number in so many decimal digits. -/
def pad : Nat → Nat → List Char
  | 0,_ => []
  | width+1,n => pad width (n/10)++[Nat.digitChar (n%10)]

def number (digits : List Char) : Nat := digits.foldl (fun n c => n*10+(c.toNat - '0'.toNat)) 0

theorem length_pad (width n : Nat) : (pad width n).length = width := by
  induction width generalizing n with
  | zero => rfl
  | succ width ih => simp [pad,ih]

theorem digitChar_toNat {n : Nat} (h : n < 10) :
    (Nat.digitChar n).toNat - '0'.toNat = n ∧ (Nat.digitChar n).isDigit = true := by
  interval_cases n <;> decide

theorem all_isDigit_pad (width n : Nat) : (pad width n).all Char.isDigit = true := by
  induction width generalizing n with
  | zero => rfl
  | succ width ih =>
      have hlast := (@digitChar_toNat (n%10) (by omega)).2
      simp [pad,ih,hlast]

theorem number_pad {width n : Nat} (h : n < 10^width) : number (pad width n) = n := by
  induction width generalizing n with
  | zero =>
      rw [Nat.pow_zero] at h
      have hn : n = 0 := by omega
      subst hn
      rfl
  | succ width ih =>
      have hlast := (@digitChar_toNat (n%10) (by omega)).1
      have hrest : n/10 < 10^width := by
        rw [Nat.pow_succ] at h
        omega
      have hnumber := ih hrest
      unfold number at hnumber ⊢
      rw [pad,List.foldl_append,hnumber]
      simp only [List.foldl_cons,List.foldl_nil,hlast]
      omega

end Digits

section Stamps

/-- The days from the first of March of the year 0 to the epoch. -/
def epochDays : Nat := 719468

/-- Year, month, day, a dash, hour, minute and second; a longer year has a sign in front. -/
def stamp (seconds : Nat) : List Char :=
  let date := civil (seconds/86400+epochDays)
  let time := seconds%86400
  (if date.year < 10000 then pad 4 date.year else '+'::(toString date.year).toList)++
    (pad 2 date.month++(pad 2 date.day++('-'::(pad 2 (time/3600)++
      (pad 2 (time/60%60)++pad 2 (time%60))))))

theorem not_mem_pad {c : Char} (hc : c.isDigit = false) (width n : Nat) : c ∉ pad width n := by
  intro hmem
  have hdigit := List.all_eq_true.mp (all_isDigit_pad width n) c hmem
  rw [hc] at hdigit
  cases hdigit

/-- Digits and the dash are all there is in a stamp. -/
theorem not_mem_stamp {c : Char} {seconds : Nat} (hc : c.isDigit = false) (hdash : c ≠ '-')
    (h : seconds < 253402300800) : c ∉ stamp seconds := by
  have hyear : (civil (seconds/86400+epochDays)).year < 10000 := by
    apply And.left
    apply civil_bounds
    unfold epochDays
    omega
  simp [stamp,hyear,not_mem_pad hc,hdash]

/-- The seconds of a stamp of fourteen digits, if there is such a time. -/
def readStamp (text : List Char) : Option Int :=
  let date : Date := ⟨number (text.take 4),number ((text.drop 4).take 2),
    number ((text.drop 6).take 2)⟩
  let hour := number ((text.drop 9).take 2)
  let minute := number ((text.drop 11).take 2)
  let second := number ((text.drop 13).take 2)
  if text.length = 15 ∧ text[8]? = some '-' ∧ (text.take 8++text.drop 9).all Char.isDigit = true ∧
      civil (daysOf date) = date ∧ hour < 24 ∧ minute < 60 ∧ second < 60 then
    some (((daysOf date : Int)-epochDays)*86400+(hour*3600+minute*60+second : Nat))
  else none

theorem take_part {width : Nat} {a b : List Char} (h : a.length = width) :
    (a++b).take width = a := by
  rw [← h,List.take_left]

theorem drop_part {width : Nat} {a b : List Char} (h : a.length = width) :
    (a++b).drop width = b := by
  rw [← h,List.drop_left]

/-- A stamp read by its parts. -/
theorem readStamp_parts {y m d h i s : List Char} (hy : y.length = 4) (hm : m.length = 2)
    (hd : d.length = 2) (hh : h.length = 2) (hi : i.length = 2) (hs : s.length = 2)
    (hdigits : (y++m++d++h++i++s).all Char.isDigit = true)
    (hdate : civil (daysOf ⟨number y,number m,number d⟩) = ⟨number y,number m,number d⟩)
    (hhour : number h < 24) (hminute : number i < 60) (hsecond : number s < 60) :
    readStamp (y++(m++(d++('-'::(h++(i++s)))))) =
      some (((daysOf ⟨number y,number m,number d⟩ : Int)-epochDays)*86400+
        (number h*3600+number i*60+number s : Nat)) := by
  have h4 : (y++(m++(d++('-'::(h++(i++s)))))).drop 4 = m++(d++('-'::(h++(i++s)))) := drop_part hy
  have h6 : (y++(m++(d++('-'::(h++(i++s)))))).drop 6 = d++('-'::(h++(i++s))) := by
    rw [← List.drop_drop (i := 2) (j := 4),h4]
    exact drop_part hm
  have h8 : (y++(m++(d++('-'::(h++(i++s)))))).drop 8 = '-'::(h++(i++s)) := by
    rw [← List.drop_drop (i := 2) (j := 6),h6]
    exact drop_part hd
  have h9 : (y++(m++(d++('-'::(h++(i++s)))))).drop 9 = h++(i++s) := by
    rw [← List.drop_drop (i := 1) (j := 8),h8]
    rfl
  have h11 : (y++(m++(d++('-'::(h++(i++s)))))).drop 11 = i++s := by
    rw [← List.drop_drop (i := 2) (j := 9),h9]
    exact drop_part hh
  have h13 : (y++(m++(d++('-'::(h++(i++s)))))).drop 13 = s++[] := by
    rw [← List.drop_drop (i := 2) (j := 11),h11,List.append_nil]
    exact drop_part hi
  have hdash : (y++(m++(d++('-'::(h++(i++s))))))[8]? = some '-' := by
    rw [← List.head?_drop,h8]
    rfl
  have htake : (y++(m++(d++('-'::(h++(i++s)))))).take 8 = y++m++d := by
    rw [← List.append_assoc,← List.append_assoc]
    exact take_part (by simp [hy,hm,hd])
  have hlength : (y++(m++(d++('-'::(h++(i++s)))))).length = 15 := by
    simp [hy,hm,hd,hh,hi,hs]
  unfold readStamp
  rw [h4,h6,h9,h11,h13,hdash,htake,hlength,take_part hy,take_part hm,take_part hd,take_part hh,
    take_part hi,take_part hs]
  have hall : (y++m++d++(h++(i++s))).all Char.isDigit = true := by
    rw [← List.append_assoc,← List.append_assoc]
    exact hdigits
  rw [if_pos ⟨rfl,rfl,hall,hdate,hhour,hminute,hsecond⟩]

/-- A day and a time of the day, both within their digits, are read back. -/
theorem readStamp_day {days time : Nat} (hdays : days ≤ 3652364) (htime : time < 86400) :
    readStamp (pad 4 (civil days).year++(pad 2 (civil days).month++(pad 2 (civil days).day++
      ('-'::(pad 2 (time/3600)++(pad 2 (time/60%60)++pad 2 (time%60))))))) =
      some (((days : Int)-epochDays)*86400+time) := by
  obtain ⟨hyear,hmonth,hday⟩ := civil_bounds hdays
  have hback := daysOf_civil days
  generalize hcivil : civil days = date at hyear hmonth hday hback
  have hy := @number_pad 4 date.year (by omega)
  have hm := @number_pad 2 date.month (by omega)
  have hd := @number_pad 2 date.day (by omega)
  have hh := @number_pad 2 (time/3600) (by omega)
  have hi := @number_pad 2 (time/60%60) (by omega)
  have hs := @number_pad 2 (time%60) (by omega)
  have hdate : civil (daysOf ⟨date.year,date.month,date.day⟩) = ⟨date.year,date.month,date.day⟩ := by
    rw [hback]
    exact hcivil
  have hdigits : (pad 4 date.year++pad 2 date.month++pad 2 date.day++pad 2 (time/3600)++
      pad 2 (time/60%60)++pad 2 (time%60)).all Char.isDigit = true := by
    simp only [List.all_append,all_isDigit_pad,Bool.and_self]
  rw [readStamp_parts (length_pad 4 _) (length_pad 2 _) (length_pad 2 _) (length_pad 2 _)
    (length_pad 2 _) (length_pad 2 _) hdigits (by rw [hy,hm,hd]; exact hdate)
    (by rw [hh]; omega) (by rw [hi]; omega) (by rw [hs]; omega),hy,hm,hd,hh,hi,hs,hback]
  have hparts : time/3600*3600+time/60%60*60+time%60 = time := by omega
  rw [hparts]

/-- A stamp of a time before the year 10000 is read as that time. -/
theorem readStamp_stamp {seconds : Nat} (h : seconds < 253402300800) :
    readStamp (stamp seconds) = some (seconds : Int) := by
  have hrange : seconds/86400+epochDays ≤ 3652364 := by
    unfold epochDays
    omega
  have hread := @readStamp_day (seconds/86400+epochDays) (seconds%86400) hrange (by omega)
  have hyear := (civil_bounds hrange).1
  unfold stamp
  dsimp only
  rw [if_pos hyear,hread]
  apply congrArg some
  push_cast
  omega

end Stamps

end CivilTime
