import SsisCompiler.Compile.Connection
import SsisCompiler.Compile.Setting

/-!
# Tasks that send mail
-/

namespace SsisCompiler.Compile

open CSharp (Statement)
open Package (NodeId)

/-- The statement that sets a part of a message, if the part is given. -/
def setPart (value : Option String) (statement : String → String) : List Statement :=
  match value with
  | some code => [.code (statement code)]
  | none => []

/-- The statement that adds recipients, which a package divides by semicolons. -/
def addRecipients (collection code : String) : String :=
  "message." ++ collection ++ ".Add((" ++ code ++ ").Replace(';', ','));"

/-- The host that mail is sent through, from the connection that the task refers to. -/
def Site.mailHost? (site : Site) (data : Option NodeId) : Option String := do
  let reference ← site.fixed? data "SMTPServer"
  let connection ← connection? site.tree reference
  connectionValue? (← connection.stored) "SmtpServer"

/-- The statements that make the client. -/
def makeClient (host : Option String) : List Statement :=
  match host with
  | some host => [.newLocal "SmtpClient" "client" ("new SmtpClient(" ++ CSharp.verbatim host ++ ")")]
  | none => [
    .comment "SMTP host taken from the application configuration",
    .newLocal "SmtpClient" "client" "new SmtpClient()"]

/-- The body of a task that sends mail. -/
def Site.mailTask (site : Site) : Fragment :=
  let data := site.tree.findDescendant? site.id "SendMailTaskData"
  let (sender, senderGaps) := site.plainSetting data "From" "FromLine"
  let (recipients, toGaps) := site.plainSetting data "To" "ToLine"
  let (cc, ccGaps) := site.plainSetting data "CC" "CCLine"
  let (bcc, bccGaps) := site.plainSetting data "BCC" "BCCLine"
  let (subject, subjectGaps) := site.plainSetting data "Subject" "Subject"
  let (text, textGaps) := site.plainSetting data "MessageSource" "MessageSource"
  let setSender := match sender with
    | some code => Fragment.statements 0 [.code ("message.From = new MailAddress(" ++ code ++ ");")]
    | none => site.gap .noSender
  senderGaps ++ toGaps ++ ccGaps ++ bccGaps ++ subjectGaps ++ textGaps
    ++ Fragment.statements 0 [.newLocal "MailMessage" "message" "new MailMessage()"]
    ++ setSender
    ++ Fragment.statements 0
      (setPart recipients (addRecipients "To") ++ setPart cc (addRecipients "CC")
        ++ setPart bcc (addRecipients "Bcc")
        ++ setPart subject (fun code => "message.Subject = " ++ code ++ ";")
        ++ setPart text (fun code => "message.Body = " ++ code ++ ";")
        ++ makeClient (site.mailHost? data)
        ++ [.code "client.Send(message);"])

end SsisCompiler.Compile
