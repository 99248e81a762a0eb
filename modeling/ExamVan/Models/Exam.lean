import ExamVan.Lib.Bytes

/-!
# Exams

`models::Exam`, with the fields in the order of the source.
-/

namespace ExamVan.Models

open ByteString

structure Exam where
  id : Int32 := 0
  name : Bytes := []
  filePath : Bytes := []
  sizeBytes : Int64 := 0
  token : Bytes := []
  activeToken : Bytes := []
  questionsJson : Option Bytes := none
  status : Bytes := str "inactive"
  securityLevel : Bytes := str "medium"
  strictMode : Int32 := 0
  publicResults : Int32 := 1
  showAnswers : Int32 := 1
  createdBy : Int32 := 0
  createdAt : Bytes := []
  identityFields : Option Bytes := none
  panelColor : Option Bytes := none
  congratsMessage : Option Bytes := none
  startTime : Option Bytes := none
  endTime : Option Bytes := none
  delegatedTo : Option Int32 := none
  tokenMode : Option Bytes := none
  tokenResetInterval : Option Int32 := none
  tokenLastResetAt : Option Bytes := none
  examStartedAt : Option Bytes := none
  autoApprove : Bool := false
  tombstonedAt : Option Bytes := none
  deriving DecidableEq

def Exam.isActive (e : Exam) : Bool := e.status = str "active"

def Exam.getTokenMode (e : Exam) : Bytes :=
  match e.tokenMode with
  | none => str "dynamic"
  | some mode => if mode = [] then str "dynamic" else mode

end ExamVan.Models
