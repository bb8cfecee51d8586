import Kitaebot.Core.Pattern
import Kitaebot.Core.Text

/-!
# The deny rules of the exec tool

The raw-string rules, in the order of the source, and the references that are
blanked out before the rules look.  The symbols that make words are those of the
expression library: ASCII letters, digits and the underscore, and beyond ASCII
whatever `wide` says.
-/

namespace Kitaebot.Tools

open Kitaebot.Pattern

/-- The symbols that make words. -/
def wordSymbol (wide : Char → Bool) (symbol : Char) : Bool :=
  if symbol.toNat < 128 then letter symbol || digit symbol || symbol == '_'
  else wide symbol

structure DenyRule where
  pattern : Pattern
  guidance : String

def blocked : String := "command blocked by policy"

def recursiveRm : String :=
  "recursive deletion is blocked; remove files one at a time with rm (rm -f is fine)"

def diskWrite : String :=
  "disk and device writes are blocked; the daemon does not manage storage"

def hostPower : String :=
  "the daemon does not manage the host; report a host problem via notify " ++
    "instead of acting on it"

def unprivileged : String :=
  "the daemon runs as a fixed unprivileged user with no sudo; anything " ++
    "needing root is out of scope, report it instead"

def chmodGuidance : String :=
  "mode changes are blocked; run a script through its interpreter " ++
    "(bash script.sh, python3 script.py) instead of chmod +x"

def ownership : String :=
  "ownership changes are blocked; the daemon already owns every workspace file"

def userMgmt : String :=
  "user and group management is blocked; the daemon runs as a fixed " ++
    "unprivileged user"

def kernelGuidance : String :=
  "kernel modules and tuning are blocked; the daemon runs unprivileged and " ++
    "does not manage the host"

def signals : String :=
  "SIGKILL and process sweeps are blocked; exec children die with the call " ++
    "on timeout or turn end, and a stuck process can still be stopped with " ++
    "kill <pid>"

def scheduling : String :=
  "scheduling is blocked; recurring work belongs to duties, not cron or at"

def fileWipe : String := "shred and wipe are blocked; remove the file with rm"

def truncateGuidance : String :=
  "truncate is blocked; rewrite the file with file_write"

def mountGuidance : String := "mounts are blocked; the daemon runs unprivileged"

def ripgrepPreprocessorGuidance : String :=
  "ripgrep preprocessors are blocked; search converted text instead"

def nixMutation : String :=
  "the daemon never runs nix mutations; the operator deploys and " ++
    "collects garbage on the host"

def pipedTest : String :=
  "test output must reach exec intact; rerun the test command without a pipe " ++
    "so its full output can be parsed"

def credentialHelpers : String :=
  "credential helpers are managed — use the git_fetch and git_push tools"

def remoteFlakes : String :=
  "remote flakes not permitted — add as a flake input"

def profileMutation : String :=
  "profile mutation is blocked; use nix develop or nix-shell for an ephemeral environment"

/-! ### Expressions that recur -/

/-- `\s`. -/
def space : Pattern := one Text.isWhitespace

/-- `\s*`. -/
def spaces : Pattern := many Text.isWhitespace

/-- `\s+`. -/
def gap : Pattern := plus Text.isWhitespace

/-- `(sh|bash)\b`. -/
def aShell : Pattern := all [any [literal "sh", literal "bash"], wordEdge]

/-- `(^|[|;&\n])\s*nix\s`. -/
def nixCommand : Pattern :=
  all [any [startOfText, one (oneOf "|;&\n")], spaces, literal "nix", space]

/-- `\bname\s+subcommand\b`, with a word edge after the name or not. -/
def subcommandOf (name subcommand : String) : Pattern :=
  all [wordEdge, literal name, gap, literal subcommand, wordEdge]

def denyRules : List DenyRule := [
  -- Destructive file operations
  ⟨all [word "rm", many (noneOf "|;&\n"), space, literal "-",
    any [all [literal "-recursive", wordEdge],
      all [many letter, one (oneOf "rR")]]], recursiveRm⟩,
  ⟨all [word "find", anything, literal "-delete"], recursiveRm⟩,
  ⟨all [word "find", anything, literal "-exec", gap, literal "rm", wordEdge],
    recursiveRm⟩,
  -- Disk and file system
  ⟨word "mkfs", diskWrite⟩,
  ⟨word "fdisk", diskWrite⟩,
  ⟨word "parted", diskWrite⟩,
  ⟨all [word "dd", gap, literal "if="], diskWrite⟩,
  ⟨all [any [startOfText, one fun symbol => !digit symbol], literal ">", spaces,
    literal "/dev/"], diskWrite⟩,
  -- System power
  ⟨all [wordEdge, literal "init", gap, one (within '0' '6'), wordEdge],
    hostPower⟩,
  ⟨all [wordEdge, literal "systemctl", gap, any [literal "halt",
    literal "poweroff", literal "reboot", literal "suspend", literal "hibernate",
    literal "mask", literal "disable", literal "daemon-reload"]], hostPower⟩,
  -- Privilege escalation
  ⟨word "sudo", unprivileged⟩,
  ⟨word "chmod", chmodGuidance⟩,
  ⟨word "chown", ownership⟩,
  ⟨word "chgrp", ownership⟩,
  -- Users and groups
  ⟨word "passwd", userMgmt⟩,
  ⟨word "useradd", userMgmt⟩,
  ⟨word "userdel", userMgmt⟩,
  ⟨word "usermod", userMgmt⟩,
  ⟨word "adduser", userMgmt⟩,
  ⟨word "deluser", userMgmt⟩,
  -- Network exfiltration
  ⟨all [word "curl", anything, literal "--upload-file"], blocked⟩,
  ⟨all [word "curl", anything, space, literal "-T", space], blocked⟩,
  ⟨all [word "wget", anything, literal "--post"], blocked⟩,
  ⟨all [word "nc", gap, literal "-", one (oneOf "le")], blocked⟩,
  ⟨all [word "netcat", gap, literal "-", one (oneOf "le")], blocked⟩,
  ⟨word "socat", blocked⟩,
  -- Pipe to a shell
  ⟨all [word "curl", anything, literal "|", spaces, aShell], blocked⟩,
  ⟨all [word "wget", anything, literal "|", spaces, aShell], blocked⟩,
  ⟨all [literal "base64", gap, literal "-d", spaces, literal "|", spaces, aShell],
    blocked⟩,
  -- Reverse shells
  ⟨literal "/dev/tcp/", blocked⟩,
  ⟨all [wordEdge, literal "python", optional (one (oneOf "23")), wordEdge,
    anything, wordEdge, literal "import", gap, literal "socket", wordEdge],
    blocked⟩,
  ⟨all [word "ruby", anything, literal "-rsocket"], blocked⟩,
  ⟨all [word "perl", anything, word "Socket"], blocked⟩,
  -- Port scanning
  ⟨word "nmap", blocked⟩,
  ⟨word "masscan", blocked⟩,
  -- Firewall
  ⟨all [word "iptables", gap, any [literal "-F", literal "--flush"]], blocked⟩,
  ⟨subcommandOf "ufw" "disable", blocked⟩,
  -- Kernel modules and tuning
  ⟨word "insmod", kernelGuidance⟩,
  ⟨word "rmmod", kernelGuidance⟩,
  ⟨word "modprobe", kernelGuidance⟩,
  ⟨all [word "sysctl", gap, literal "-w", wordEdge], kernelGuidance⟩,
  -- Secret harvesting
  ⟨all [word "cat", anything, literal "~/.ssh/id_"], blocked⟩,
  ⟨all [word "cat", anything, literal "~/.aws/"], blocked⟩,
  -- Key ring
  ⟨all [word "gpg", anything, literal "--export-secret"], blocked⟩,
  ⟨literal ".gnupg/", blocked⟩,
  -- Library injection
  ⟨word "LD_PRELOAD", blocked⟩,
  -- Namespace escape
  ⟨word "nsenter", blocked⟩,
  -- Process control
  ⟨all [word "kill", gap, literal "-9"], signals⟩,
  ⟨word "killall", signals⟩,
  ⟨word "pkill", signals⟩,
  -- Fork bomb
  ⟨all [literal ":()", spaces, literal "\x7b", anything, literal "\x7d;", spaces,
    literal ":"], blocked⟩,
  -- Scheduling
  ⟨word "crontab", scheduling⟩,
  -- Git operations with a tool of their own
  ⟨all [word "git", gap, literal "clone", wordEdge], "use the git_clone tool"⟩,
  ⟨all [word "git", gap, literal "push", wordEdge], "use the git_push tool"⟩,
  ⟨all [word "git", gap, literal "fetch", wordEdge], "use the git_fetch tool"⟩,
  ⟨all [word "git", gap, literal "commit", wordEdge], "use the git_commit tool"⟩,
  ⟨literal "gpgsign=false",
    "GPG commit signing is configured — do not disable it"⟩,
  -- Credentials
  ⟨all [word "cat", anything, literal ".config/gh/"],
    "gh CLI config is not accessible"⟩,
  ⟨literal "credential.helper=", credentialHelpers⟩,
  ⟨all [word "gh", gap, literal "auth", wordEdge], "gh auth is not accessible"⟩,
  ⟨all [literal ".git-credentials", wordEdge], "credentials are not accessible"⟩,
  -- Nix
  ⟨all [nixCommand, anything, wordEdge,
    any [literal "github", literal "gitlab", literal "sourcehut"], literal ":"],
    remoteFlakes⟩,
  ⟨all [nixCommand, anything, literal "http", optional (literal "s"),
    literal "://"], remoteFlakes⟩,
  ⟨all [nixCommand, anything, literal "git+"], remoteFlakes⟩,
  ⟨word "nixos-rebuild",
    "system rebuild is blocked; the daemon never mutates the host, the operator deploys"⟩,
  ⟨word "nix-env", profileMutation⟩,
  ⟨subcommandOf "nix" "profile", profileMutation⟩,
  ⟨all [wordEdge, literal "nix", gap, literal "store", gap,
    any [literal "delete", literal "gc", literal "optimise"], wordEdge],
    nixMutation⟩,
  ⟨word "nix-collect-garbage", nixMutation⟩,
  ⟨word "nix-channel", nixMutation⟩,
  ⟨all [wordEdge, literal "nix", gap, literal "copy", wordEdge, anything,
    literal "--to"], "copying to remote stores not permitted"⟩]

/-- With the rules for the directories the daemon keeps to itself. -/
def allDenyRules : List DenyRule :=
  denyRules ++ [
    ⟨all [any [startOfText, one fun symbol =>
        Text.isWhitespace symbol || symbol == '='],
      optional (literal "./"), literal "context/"],
      "engine context is daemon-owned; use the lcm tools for history " ++
        "(payload files under the lcm payload store are exec-readable)"⟩,
    ⟨all [literal ">", spaces, optional (literal "./"), literal "state/"],
      "state/ is daemon-owned; only state/review-checklist.md " ++
        "is model-writable, via file_write"⟩]

/-! ### Blanking -/

/-- A file of the payload store, by its exact id. -/
def payloadRef : Pattern :=
  all ([optional (literal "./"), literal "context/lcm/payloads/file_"] ++
    List.replicate 16 (one hexDigit) ++ [wordEdge])

/-- Reads of the payload store are blanked, redirects into it are kept. -/
def sanitizePayloadRefs (isWord : Char → Bool) (cmd : String) : String :=
  replaceAll isWord
    [⟨all [literal ">", spaces, payloadRef], id⟩,
      ⟨payloadRef, fun _ => "payload_ref".toList⟩] cmd

def streamDevice : Pattern :=
  all [literal "/dev/", any [literal "null", literal "zero", literal "full",
    literal "stdin", literal "stdout", literal "stderr", literal "tty",
    all [optional (literal "u"), literal "random"],
    all [literal "fd/", plus digit]], wordEdge]

def sanitize (isWord : Char → Bool) (cmd : String) : String :=
  replaceAll isWord [⟨streamDevice, fun _ => "stream_device".toList⟩]
    (sanitizePayloadRefs isWord cmd)

/-- The first rule that matches. -/
def denySetMatch (isWord : Char → Bool) (sanitized : String) : Option String :=
  (allDenyRules.find? fun rule => rule.pattern.isMatch isWord sanitized).map
    (·.guidance)

end Kitaebot.Tools
