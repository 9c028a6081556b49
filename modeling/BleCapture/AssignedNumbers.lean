import BleCapture.Address

/-!
# Assigned numbers

Names for codes seen in advertisements and on the host controller interface.
A code outside its table has no name; where a report must show something, it
shows the code in hex.
-/

namespace BleCapture.AssignedNumbers

def companies : List (UInt16 × String) :=
  [(0x0006, "Microsoft"),
   (0x004C, "Apple"),
   (0x0075, "Samsung"),
   (0x0087, "Garmin"),
   (0x00D2, "Google"),
   (0x00E0, "Google"),
   (0x0157, "Polar"),
   (0x01D2, "Xiaomi"),
   (0x038F, "Xiaomi"),
   (0x0310, "Amazfit"),
   (0x0822, "adidas"),
   (0x09A8, "Shenzhen")]

def services : List (UInt16 × String) :=
  [(0x1800, "Generic Access"),
   (0x1801, "Generic Attribute"),
   (0x1802, "Immediate Alert"),
   (0x1803, "Link Loss"),
   (0x1804, "Tx Power"),
   (0x1805, "Current Time"),
   (0x1806, "Reference Time Update"),
   (0x1807, "Next DST Change"),
   (0x1808, "Glucose"),
   (0x1809, "Health Thermometer"),
   (0x180A, "Device Information"),
   (0x180D, "Heart Rate"),
   (0x180E, "Phone Alert Status"),
   (0x180F, "Battery"),
   (0x1810, "Blood Pressure"),
   (0x1811, "Alert Notification"),
   (0x1812, "Human Interface Device"),
   (0x1813, "Scan Parameters"),
   (0x1814, "Running Speed and Cadence"),
   (0x1815, "Automation IO"),
   (0x1816, "Cycling Speed and Cadence"),
   (0x1818, "Cycling Power"),
   (0x1819, "Location and Navigation"),
   (0x181A, "Environmental Sensing"),
   (0x181B, "Body Composition"),
   (0x181C, "User Data"),
   (0x181D, "Weight Scale"),
   (0x181E, "Bond Management"),
   (0x181F, "Continuous Glucose Monitoring"),
   (0x1820, "Internet Protocol Support"),
   (0x1821, "Indoor Positioning"),
   (0x1822, "Pulse Oximeter"),
   (0x1823, "HTTP Proxy"),
   (0x1824, "Transport Discovery"),
   (0x1825, "Object Transfer"),
   (0x1826, "Fitness Machine"),
   (0x1827, "Mesh Provisioning"),
   (0x1828, "Mesh Proxy"),
   (0xFE9F, "Google"),
   (0xFEAA, "Google Eddystone"),
   (0xFD6F, "Apple Exposure Notification")]

def appearances : List (UInt16 × String) :=
  [(0x0000, "Unknown"),
   (0x0040, "Generic Phone"),
   (0x0080, "Generic Computer"),
   (0x00C0, "Generic Watch"),
   (0x00C1, "Sports Watch"),
   (0x0100, "Generic Clock"),
   (0x0140, "Generic Display"),
   (0x0180, "Generic Remote Control"),
   (0x01C0, "Generic Eye-glasses"),
   (0x0200, "Generic Tag"),
   (0x0240, "Generic Keyring"),
   (0x0280, "Generic Media Player"),
   (0x02C0, "Generic Barcode Scanner"),
   (0x0300, "Generic Thermometer"),
   (0x0340, "Generic Heart Rate Sensor"),
   (0x0380, "Generic Blood Pressure"),
   (0x03C0, "Generic HID"),
   (0x03C1, "Keyboard"),
   (0x03C2, "Mouse"),
   (0x03C3, "Joystick"),
   (0x03C4, "Gamepad"),
   (0x0440, "Generic Glucose Meter"),
   (0x0480, "Generic Running/Walking Sensor"),
   (0x04C0, "Generic Cycling"),
   (0x0540, "Generic Pulse Oximeter"),
   (0x0580, "Generic Weight Scale"),
   (0x05C0, "Generic Outdoor Sports")]

def events : List (UInt8 × String) :=
  [(0x05, "Disconnection Complete"),
   (0x08, "Encryption Change"),
   (0x0C, "Read Remote Version Complete"),
   (0x0E, "Command Complete"),
   (0x0F, "Command Status"),
   (0x10, "Hardware Error"),
   (0x13, "Number of Completed Packets"),
   (0x3E, "LE Meta Event")]

def leSubevents : List (UInt8 × String) :=
  [(0x01, "LE Connection Complete"),
   (0x02, "LE Advertising Report"),
   (0x03, "LE Connection Update Complete"),
   (0x04, "LE Read Remote Features Complete"),
   (0x05, "LE Long Term Key Request"),
   (0x06, "LE Remote Connection Parameter Request"),
   (0x07, "LE Data Length Change"),
   (0x0A, "LE Enhanced Connection Complete"),
   (0x0D, "LE Extended Advertising Report")]

def opcodeGroups : List (UInt8 × String) :=
  [(0x01, "Link Control"),
   (0x02, "Link Policy"),
   (0x03, "Controller & Baseband"),
   (0x04, "Informational"),
   (0x05, "Status"),
   (0x08, "LE Controller")]

/-- Vendors by the first three address bytes. -/
def vendors : List ((UInt8 × UInt8 × UInt8) × String) :=
  [((0x00, 0x1C, 0xB3), "Apple"),
   ((0x00, 0x03, 0x93), "Apple"),
   ((0x00, 0x0A, 0x95), "Apple"),
   ((0x28, 0xCF, 0xDA), "Apple"),
   ((0x34, 0xC0, 0x59), "Apple"),
   ((0x3C, 0x07, 0x54), "Apple"),
   ((0x78, 0x31, 0xC1), "Apple"),
   ((0xA4, 0xB1, 0x97), "Apple"),
   ((0xAC, 0xBC, 0x32), "Apple"),
   ((0xF0, 0xB4, 0x79), "Apple"),
   ((0x00, 0x12, 0x47), "Samsung"),
   ((0x00, 0x15, 0x99), "Samsung"),
   ((0x50, 0x01, 0xBB), "Samsung"),
   ((0x5C, 0x0A, 0x5B), "Samsung"),
   ((0x8C, 0x77, 0x12), "Samsung"),
   ((0xAC, 0x5F, 0x3E), "Samsung"),
   ((0xE4, 0x7C, 0xF9), "Samsung"),
   ((0x00, 0x1A, 0x11), "Google"),
   ((0x3C, 0x5A, 0xB4), "Google"),
   ((0x54, 0x60, 0x09), "Google"),
   ((0xF4, 0xF5, 0xD8), "Google"),
   ((0x00, 0x0D, 0x3A), "Microsoft"),
   ((0x00, 0x15, 0x5D), "Microsoft"),
   ((0x00, 0x50, 0xF2), "Microsoft"),
   ((0x7C, 0x1E, 0x52), "Microsoft"),
   ((0x0C, 0x47, 0xC9), "Amazon"),
   ((0x44, 0x65, 0x0D), "Amazon"),
   ((0x68, 0x37, 0xE9), "Amazon"),
   ((0xFC, 0x65, 0xDE), "Amazon"),
   ((0x04, 0xCF, 0x8C), "Xiaomi"),
   ((0x28, 0x6C, 0x07), "Xiaomi"),
   ((0x64, 0x09, 0x80), "Xiaomi"),
   ((0xF8, 0xA4, 0x5F), "Xiaomi"),
   ((0x24, 0x0A, 0xC4), "Espressif"),
   ((0x24, 0x6F, 0x28), "Espressif"),
   ((0x30, 0xAE, 0xA4), "Espressif"),
   ((0x3C, 0x71, 0xBF), "Espressif"),
   ((0x7C, 0x9E, 0xBD), "Espressif"),
   ((0x84, 0xF3, 0xEB), "Espressif"),
   ((0xA4, 0xCF, 0x12), "Espressif"),
   ((0xC4, 0x4F, 0x33), "Espressif"),
   ((0xC0, 0xA5, 0xE3), "Nordic"),
   ((0xD4, 0xCA, 0x6E), "Nordic"),
   ((0xF0, 0x5C, 0xD5), "Nordic"),
   ((0x18, 0xB9, 0x05), "Bouffalo Lab"),
   ((0x00, 0x12, 0x37), "Texas Instruments"),
   ((0x04, 0xA3, 0x16), "Texas Instruments"),
   ((0x34, 0x03, 0xDE), "Texas Instruments"),
   ((0xB0, 0xB4, 0x48), "Texas Instruments"),
   ((0x50, 0xA4, 0xD0), "Fitbit"),
   ((0xC0, 0xD0, 0x12), "Fitbit"),
   ((0xE4, 0xF0, 0x42), "Tile"),
   ((0xD0, 0x03, 0x4B), "Tile")]

def companyName? (id : UInt16) : Option String := companies.lookup id

def serviceName? (id : UInt16) : Option String := services.lookup id

def appearanceName? (code : UInt16) : Option String := appearances.lookup code

def eventName? (code : UInt8) : Option String := events.lookup code

def leSubeventName? (code : UInt8) : Option String := leSubevents.lookup code

def opcodeGroupName? (group : UInt8) : Option String := opcodeGroups.lookup group

/-- Meaningful for public addresses; a random address hardly ever matches. -/
def vendor? (a : Address) : Option String := vendors.lookup a.vendorBytes

def serviceLabel (id : UInt16) : String :=
  (serviceName? id).getD (Text.hexCode 4 id.toNat)

def appearanceLabel (code : UInt16) : String :=
  (appearanceName? code).getD (Text.hexCode 4 code.toNat)

end BleCapture.AssignedNumbers
